import Mathlib.Data.Finset.Card
import Mathlib.Data.List.Sort
import LayerSdk.OrdMap
import LayerSdk.Codec

/-!
# Hybrid certificates

The consensus scheme puts a MAYO signature beside every classical one. A
certificate has the recovered classical certificate, a bitmap of signers and
one MAYO signature for each set bit. The classical scheme and the MAYO check
are parameters.

`assemble` leaves the quorum to the classical scheme; `verify_certificate` has
one of its own, and the constructor takes any number up to all participants
for it.
-/

namespace LayerSdk

/-! ## The libraries -/

abbrev Participant := Nat

/-- A bitmap over the participants. -/
structure Signers where
  bits : List Bool
deriving DecidableEq, Repr

namespace Signers

def len (s : Signers) : Nat := s.bits.length

/-- The set bits, in ascending order. -/
def iter (s : Signers) : List Participant :=
  (List.range s.len).filter fun i => s.bits[i]? = some true

def count (s : Signers) : Nat := s.iter.length

/-- A bit that is set already or not there is a panic. -/
def set (s : Signers) (i : Participant) : Option Signers :=
  if s.bits[i]? = some false then some ⟨s.bits.set i true⟩ else none

/-- `Signers::from` -/
def ofIter (n : Nat) (signers : List Participant) : Option Signers :=
  signers.foldlM set ⟨List.replicate n false⟩

end Signers

/-- A vote; a signature that does not decode is `none`. -/
structure Attestation (Sig : Type) where
  signer : Participant
  signature : Option Sig

/-- The classical threshold scheme. -/
structure InnerScheme (Subject Sig Cert : Type) where
  participants : Nat
  verifyAttestation : Subject → Participant → Sig → Bool
  assemble : List (Participant × Sig) → Option Cert
  verifyCertificate : Subject → Cert → Bool

/-- The quorum of simplex, `n - f` with `f = (n - 1) / 3`. -/
def simplexQuorum (n : Nat) : Nat := n - (n - 1) / 3

/-- A certificate is made from a quorum of votes of different participants, and it
verifies for the subject of the votes. -/
structure InnerScheme.Correct {Subject Sig Cert : Type} (inner : InnerScheme Subject Sig Cert) :
    Prop where
  quorum : ∀ atts cert, inner.assemble atts = some cert → (atts.map Prod.fst).Nodup →
    simplexQuorum inner.participants ≤ atts.length
  complete : ∀ subject atts cert, inner.assemble atts = some cert → (atts.map Prod.fst).Nodup →
    (∀ a ∈ atts, inner.verifyAttestation subject a.1 a.2 = true) →
    inner.verifyCertificate subject cert = true

/-- What is signed: a namespace derived from the scheme's, then the message. -/
structure SubjectEncoding (Subject : Type) where
  namespaceOf : Bytes → Subject → Bytes
  message : Subject → Bytes

/-! ## The source's functions -/

def mayo2SigBytes : Nat := 186

def mayo2PkBytes : Nat := 4912

abbrev MayoSig := { b : Bytes // b.length = mayo2SigBytes }

structure HybridSignature (Sig : Type) where
  classical : Sig
  pq : MayoSig

structure HybridCertificate (Cert : Type) where
  classical : Cert
  signers : Signers
  pqSigs : List MayoSig
deriving DecidableEq

/-- The memo of signatures is left out. -/
structure HybridScheme (Subject Sig Cert : Type) where
  inner : InnerScheme Subject Sig Cert
  baseNamespace : Bytes
  mayoPks : List Bytes
  mayoSeed : Option Bytes
  pqQuorum : Nat

/-- Every carried signature must verify, and there must be enough. -/
def pqQuorumMet (pqQuorum : Nat) (verify : Participant → MayoSig → Bool) :
    Nat → List (Participant × MayoSig) → Bool
  | valid, [] => valid ≥ pqQuorum
  | valid, (signer, sig) :: rest =>
    if verify signer sig then pqQuorumMet pqQuorum verify (valid + 1) rest else false

/-- What `assemble` collects. -/
structure Collected (Sig : Type) where
  innerAtts : List (Participant × Sig)
  pq : Std.ExtTreeMap Nat MayoSig
  seen : Finset Participant

/-- The first vote of each participant; one that does not decode ends it all. -/
def collectVotes {Sig : Type} (n : Nat) : List (Attestation (HybridSignature Sig)) → Collected Sig →
    Option (Collected Sig)
  | [], acc => some acc
  | att :: rest, acc =>
    if att.signer ≥ n ∨ att.signer ∈ acc.seen then collectVotes n rest acc
    else
      match att.signature with
      | none => none
      | some sig =>
        collectVotes n rest ⟨acc.innerAtts ++ [(att.signer, sig.classical)],
          acc.pq.insert att.signer sig.pq, insert att.signer acc.seen⟩

namespace HybridScheme

variable {Subject Sig Cert : Type}

def new (inner : InnerScheme Subject Sig Cert) (baseNamespace : Bytes) (mayoPks : List Bytes)
    (mayoSeed : Option Bytes) (pqQuorum : Nat) : Option (HybridScheme Subject Sig Cert) :=
  if mayoPks.length ≠ inner.participants then none
  else if mayoPks.any fun pk => pk.length ≠ mayo2PkBytes then none
  else if pqQuorum = 0 ∨ pqQuorum > inner.participants then none
  else some ⟨inner, baseNamespace, mayoPks, mayoSeed, pqQuorum⟩

variable (encoding : SubjectEncoding Subject) (mayo : Bytes → Bytes → Bytes → Option Bool)
  (scheme : HybridScheme Subject Sig Cert)

def namespacedMessage (subject : Subject) : Bytes :=
  encoding.namespaceOf scheme.baseNamespace subject ++ encoding.message subject

def mayoVerify (msg sig pk : Bytes) : Bool := (mayo msg sig pk).getD false

/-- The MAYO half of a vote, under the key registered for the signer. -/
def verifyPq (subject : Subject) (signer : Participant) (sig : MayoSig) : Bool :=
  match scheme.mayoPks[signer]? with
  | none => false
  | some pk => mayoVerify mayo (scheme.namespacedMessage encoding subject) sig.val pk

def verifyAttestation (subject : Subject) (att : Attestation (HybridSignature Sig)) : Bool :=
  match att.signature with
  | none => false
  | some sig =>
    if scheme.inner.verifyAttestation subject att.signer sig.classical then
      scheme.verifyPq encoding mayo subject att.signer sig.pq
    else false

/-- The outer `none` is a panic. -/
def assemble (atts : List (Attestation (HybridSignature Sig))) :
    Option (Option (HybridCertificate Cert)) :=
  let n := scheme.mayoPks.length
  match collectVotes n atts ⟨[], ∅, ∅⟩ with
  | none => some none
  | some acc =>
    match scheme.inner.assemble acc.innerAtts with
    | none => some none
    | some classical =>
      (Signers.ofIter n (acc.pq.toList.map Prod.fst)).map fun signers =>
        some ⟨classical, signers, acc.pq.toList.map Prod.snd⟩

def verifyCertificate (subject : Subject) (cert : HybridCertificate Cert) : Bool :=
  if ¬ scheme.inner.verifyCertificate subject cert.classical then false
  else if cert.signers.len ≠ scheme.mayoPks.length then false
  else if cert.pqSigs.length ≠ cert.signers.count then false
  else
    pqQuorumMet scheme.pqQuorum (scheme.verifyPq encoding mayo subject) 0
      (cert.signers.iter.zip cert.pqSigs)

end HybridScheme

/-! ## The bitmap -/

namespace Signers

theorem nodup_iter (s : Signers) : s.iter.Nodup := List.nodup_range.filter _

theorem mem_iter {s : Signers} {i : Participant} : i ∈ s.iter ↔ s.bits[i]? = some true := by
  rw [iter, List.mem_filter, List.mem_range, decide_eq_true_eq, and_iff_right_iff_imp]
  intro h
  obtain ⟨hlt, -⟩ := List.getElem?_eq_some_iff.mp h
  exact hlt

/-- Setting bits that are there and not set, one after the other. -/
theorem foldlM_set : ∀ {signers : List Participant} {s : Signers}, signers.Nodup →
    (∀ i ∈ signers, s.bits[i]? = some false) →
    ∃ s', signers.foldlM set s = some s' ∧ s'.len = s.len ∧
      ∀ i, s'.bits[i]? = some true ↔ s.bits[i]? = some true ∨ i ∈ signers
  | [], s, _, _ => ⟨s, rfl, rfl, fun i => by simp⟩
  | j :: rest, s, hnodup, hfree => by
    obtain ⟨hj, hrest⟩ := List.nodup_cons.mp hnodup
    have hset : s.set j = some ⟨s.bits.set j true⟩ := if_pos (hfree j (List.mem_cons_self))
    have hbit : ∀ i, i ≠ j → (s.bits.set j true)[i]? = s.bits[i]? := fun i hi =>
      List.getElem?_set_ne hi.symm
    obtain ⟨s', hfold, hlen, hbits⟩ := foldlM_set (s := ⟨s.bits.set j true⟩) hrest fun i hi => by
      have hne : i ≠ j := fun h => hj (h ▸ hi)
      exact (hbit i hne).trans (hfree i (List.mem_cons_of_mem _ hi))
    refine ⟨s', ?_, hlen.trans (List.length_set ..), fun i => ?_⟩
    · rw [List.foldlM_cons, hset]
      exact hfold
    · rw [hbits, List.mem_cons]
      by_cases hi : i = j
      · subst hi
        obtain ⟨hlt, -⟩ := List.getElem?_eq_some_iff.mp (hfree i (List.mem_cons_self))
        simp [List.getElem?_set_self hlt]
      · simp [hbit i hi, hi]

/-- An ascending list of participants is the bitmap's. -/
theorem ofIter_ascending {n : Nat} {signers : List Participant}
    (hsorted : signers.Pairwise (· < ·)) (hlt : ∀ i ∈ signers, i < n) :
    ∃ s, ofIter n signers = some s ∧ s.len = n ∧ s.iter = signers := by
  obtain ⟨s, hfold, hlen, hbits⟩ := foldlM_set (s := ⟨List.replicate n false⟩)
    (hsorted.imp fun h => Nat.ne_of_lt h) fun i hi => List.getElem?_replicate_of_lt (hlt i hi)
  refine ⟨s, hfold, hlen.trans (List.length_replicate ..), ?_⟩
  have hmem : ∀ i, i ∈ s.iter ↔ i ∈ signers := fun i => by
    rw [mem_iter, hbits, or_iff_right]
    simp [List.getElem?_replicate]
  have hiter : s.iter.Pairwise (· < ·) := List.pairwise_lt_range.filter _
  exact hiter.eq_of_mem_iff hsorted hmem

end Signers

/-! ## The votes `assemble` collects -/

section Collect

variable {Sig : Type} {n : Nat} {valid : Participant → HybridSignature Sig → Prop}

/-- One valid vote for each participant seen. -/
structure Collected.Of (n : Nat) (valid : Participant → HybridSignature Sig → Prop)
    (acc : Collected Sig) : Prop where
  signers : (acc.innerAtts.map Prod.fst).Nodup
  mem_signers : ∀ i, i ∈ acc.innerAtts.map Prod.fst ↔ i ∈ acc.seen
  classical : ∀ a ∈ acc.innerAtts, ∃ sig, valid a.1 sig ∧ a.2 = sig.classical
  pq : ∀ i s, acc.pq[i]? = some s → ∃ sig, valid i sig ∧ s = sig.pq
  mem_pq : ∀ i, i ∈ acc.pq ↔ i ∈ acc.seen
  size : acc.pq.size = acc.seen.card
  lt : ∀ i ∈ acc.seen, i < n

theorem Collected.Of.empty : Collected.Of n valid (⟨[], ∅, ∅⟩ : Collected Sig) where
  signers := List.nodup_nil
  mem_signers := by simp
  classical := by simp
  pq := by simp
  mem_pq := by simp
  size := rfl
  lt := by simp

theorem Collected.Of.push {acc : Collected Sig} (h : acc.Of n valid) {i : Participant}
    {sig : HybridSignature Sig} (hi : i < n) (hnew : i ∉ acc.seen) (hvalid : valid i sig) :
    Collected.Of n valid ⟨acc.innerAtts ++ [(i, sig.classical)], acc.pq.insert i sig.pq,
      insert i acc.seen⟩ where
  signers := by
    rw [List.map_append, List.map_cons, List.map_nil, List.nodup_append]
    refine ⟨h.signers, List.nodup_singleton _, fun a ha b hb => ?_⟩
    rintro rfl
    rw [List.mem_singleton.mp hb] at ha
    exact hnew ((h.mem_signers i).mp ha)
  mem_signers j := by
    rw [List.map_append, List.mem_append, h.mem_signers, Finset.mem_insert, or_comm]
    simp
  classical a ha := by
    rcases List.mem_append.mp ha with ha | ha
    · exact h.classical a ha
    · obtain rfl := List.mem_singleton.mp ha
      exact ⟨sig, hvalid, rfl⟩
  pq j s hj := by
    rcases OrdMap.getElem?_insert_cases.mp hj with ⟨rfl, rfl⟩ | ⟨-, hj⟩
    · exact ⟨sig, hvalid, rfl⟩
    · exact h.pq j s hj
  mem_pq j := by
    rw [Std.ExtTreeMap.mem_insert, Std.LawfulEqCmp.compare_eq_iff_eq, h.mem_pq, Finset.mem_insert,
      eq_comm]
  size := by
    have hfree : acc.pq.contains i = false := by
      rw [← Bool.not_eq_true, Std.ExtTreeMap.contains_iff_mem, h.mem_pq]
      exact hnew
    rw [Std.ExtTreeMap.size_insert, hfree, Finset.card_insert_of_notMem hnew, h.size]
    rfl
  lt j hj := by
    rcases Finset.mem_insert.mp hj with rfl | hj
    · exact hi
    · exact h.lt j hj

/-- All signers of valid votes are collected, each once. -/
theorem collectVotes_spec : ∀ {atts : List (Attestation (HybridSignature Sig))}
    {acc : Collected Sig},
    (∀ a ∈ atts, a.signer < n ∧ ∃ sig, a.signature = some sig ∧ valid a.signer sig) →
    acc.Of n valid →
    ∃ acc', collectVotes n atts acc = some acc' ∧ acc'.Of n valid ∧
      acc'.seen = acc.seen ∪ (atts.map Attestation.signer).toFinset
  | [], acc, _, hacc => ⟨acc, rfl, hacc, by simp⟩
  | a :: rest, acc, hatts, hacc => by
    obtain ⟨hlt, sig, hsig, hvalid⟩ := hatts a (List.mem_cons_self)
    have hrest : ∀ b ∈ rest, b.signer < n ∧ ∃ sig, b.signature = some sig ∧ valid b.signer sig :=
      fun b hb => hatts b (List.mem_cons_of_mem _ hb)
    rw [collectVotes, List.map_cons, List.toFinset_cons]
    by_cases hseen : a.signer ∈ acc.seen
    · rw [if_pos (.inr hseen)]
      obtain ⟨acc', hcollect, hacc', heq⟩ := collectVotes_spec hrest hacc
      refine ⟨acc', hcollect, hacc', ?_⟩
      rw [heq, Finset.union_insert, Finset.insert_eq_self.mpr (Finset.mem_union_left _ hseen)]
    · rw [if_neg (not_or.mpr ⟨Nat.not_le.mpr hlt, hseen⟩), hsig]
      obtain ⟨acc', hcollect, hacc', heq⟩ := collectVotes_spec hrest (hacc.push hlt hseen hvalid)
      refine ⟨acc', hcollect, hacc', ?_⟩
      rw [heq, Finset.union_insert, Finset.insert_union]

end Collect

/-! ## Certificates -/

theorem pqQuorumMet_iff {pqQuorum : Nat} {verify : Participant → MayoSig → Bool} :
    ∀ {carried : List (Participant × MayoSig)} {valid : Nat},
      pqQuorumMet pqQuorum verify valid carried = true ↔
        (∀ x ∈ carried, verify x.1 x.2 = true) ∧ pqQuorum ≤ valid + carried.length
  | [], valid => by simp [pqQuorumMet]
  | (signer, sig) :: rest, valid => by
    rw [pqQuorumMet, List.forall_mem_cons, List.length_cons]
    by_cases hv : verify signer sig = true
    · rw [if_pos hv, pqQuorumMet_iff, and_iff_right hv, Nat.add_right_comm, Nat.add_assoc]
    · rw [if_neg hv]
      simp [hv]

namespace HybridScheme

variable {Subject Sig Cert : Type} {encoding : SubjectEncoding Subject}
  {mayo : Bytes → Bytes → Bytes → Option Bool} {scheme : HybridScheme Subject Sig Cert}
  {subject : Subject}

variable {cert : HybridCertificate Cert} {pqQuorum : Nat}

theorem verifyCertificate_iff : scheme.verifyCertificate encoding mayo subject cert = true ↔
      scheme.inner.verifyCertificate subject cert.classical = true ∧
      cert.signers.len = scheme.mayoPks.length ∧ cert.pqSigs.length = cert.signers.count ∧
      (∀ x ∈ cert.signers.iter.zip cert.pqSigs,
        scheme.verifyPq encoding mayo subject x.1 x.2 = true) ∧
      scheme.pqQuorum ≤ cert.signers.count := by
  rw [verifyCertificate]
  by_cases hinner : scheme.inner.verifyCertificate subject cert.classical = true
  · by_cases hlen : cert.signers.len = scheme.mayoPks.length
    · by_cases hcount : cert.pqSigs.length = cert.signers.count
      · have hzip : (cert.signers.iter.zip cert.pqSigs).length = cert.signers.count := by
          rw [List.length_zip, hcount, Signers.count, min_self]
        simp [hinner, hlen, hcount, pqQuorumMet_iff, hzip]
      · simp [hcount]
    · simp [hlen]
  · simp [hinner]

theorem verifyPq_iff {signer : Participant} {sig : MayoSig} :
    scheme.verifyPq encoding mayo subject signer sig = true ↔
      ∃ pk, scheme.mayoPks[signer]? = some pk ∧
        mayoVerify mayo (scheme.namespacedMessage encoding subject) sig.val pk = true := by
  rw [verifyPq]
  cases scheme.mayoPks[signer]? with
  | none | some pk => simp

theorem verifyAttestation_iff {att : Attestation (HybridSignature Sig)} :
    scheme.verifyAttestation encoding mayo subject att = true ↔
      ∃ sig, att.signature = some sig ∧
        scheme.inner.verifyAttestation subject att.signer sig.classical = true ∧
        scheme.verifyPq encoding mayo subject att.signer sig.pq = true := by
  rw [verifyAttestation]
  cases att.signature with
  | none | some sig => simp

/-- Both halves of a vote are valid. -/
def ValidVote (encoding : SubjectEncoding Subject) (mayo : Bytes → Bytes → Bytes → Option Bool)
    (scheme : HybridScheme Subject Sig Cert) (subject : Subject) (signer : Participant)
    (sig : HybridSignature Sig) : Prop :=
  scheme.inner.verifyAttestation subject signer sig.classical = true ∧
    scheme.verifyPq encoding mayo subject signer sig.pq = true

/-- A certificate assembled from accepted votes has one valid MAYO signature for
each of their signers. -/
theorem assemble_spec (hinner : scheme.inner.Correct)
    {atts : List (Attestation (HybridSignature Sig))}
    (hatts : ∀ a ∈ atts, scheme.verifyAttestation encoding mayo subject a = true)
    (hcert : scheme.assemble atts = some (some cert)) :
    scheme.inner.verifyCertificate subject cert.classical = true ∧
      cert.signers.len = scheme.mayoPks.length ∧ cert.pqSigs.length = cert.signers.count ∧
      (∀ x ∈ cert.signers.iter.zip cert.pqSigs,
        scheme.verifyPq encoding mayo subject x.1 x.2 = true) ∧
      cert.signers.count = (atts.map Attestation.signer).toFinset.card ∧
      simplexQuorum scheme.inner.participants ≤ cert.signers.count := by
  have hvalid : ∀ a ∈ atts, a.signer < scheme.mayoPks.length ∧
      ∃ sig, a.signature = some sig ∧ scheme.ValidVote encoding mayo subject a.signer sig := by
    intro a ha
    obtain ⟨sig, hsig, hclassical, hpq⟩ := verifyAttestation_iff.mp (hatts a ha)
    obtain ⟨pk, hpk, -⟩ := verifyPq_iff.mp hpq
    exact ⟨(List.getElem?_eq_some_iff.mp hpk).1, sig, hsig, hclassical, hpq⟩
  obtain ⟨acc, hcollect, hacc, hseen⟩ := collectVotes_spec hvalid .empty
  rw [Finset.empty_union] at hseen
  have hsorted : (acc.pq.toList.map Prod.fst).Pairwise (· < ·) := by
    rw [List.pairwise_map]
    exact (OrdMap.ascending_toList acc.pq).imp fun h => Nat.compare_eq_lt.mp h
  have hkeys : ∀ i ∈ acc.pq.toList.map Prod.fst, i < scheme.mayoPks.length := by
    intro i hi
    obtain ⟨⟨j, s⟩, hmem, rfl⟩ := List.mem_map.mp hi
    exact hacc.lt j ((hacc.mem_pq j).mp (OrdMap.mem_of_mem_toList hmem))
  obtain ⟨signers, hsigners, hlen, hiter⟩ := Signers.ofIter_ascending hsorted hkeys
  have hcount : signers.count = acc.seen.card := by
    rw [Signers.count, hiter, List.length_map, Std.ExtTreeMap.length_toList, hacc.size]
  rw [assemble, hcollect] at hcert
  dsimp only at hcert
  cases hassemble : scheme.inner.assemble acc.innerAtts with
  | none =>
    rw [hassemble] at hcert
    cases hcert
  | some classical =>
    rw [hassemble, hsigners] at hcert
    obtain rfl := Option.some.inj (Option.some.inj hcert)
    refine ⟨?_, hlen, ?_, ?_, ?_, ?_⟩
    · refine hinner.complete subject acc.innerAtts classical hassemble hacc.signers fun a ha => ?_
      obtain ⟨sig, hsig, heq⟩ := hacc.classical a ha
      rw [heq]
      exact hsig.1
    · rw [List.length_map, Signers.count, hiter, List.length_map]
    · intro x hx
      rw [hiter, ← List.zip_of_prod rfl rfl] at hx
      obtain ⟨sig, hsig, heq⟩ :=
        hacc.pq x.1 x.2 (Std.ExtTreeMap.mem_toList_iff_getElem?_eq_some.mp hx)
      rw [heq]
      exact hsig.2
    · rw [hcount, hseen]
    · have hlength : acc.innerAtts.length = acc.seen.card := by
        rw [← List.length_map (f := Prod.fst), ← List.toFinset_card_of_nodup hacc.signers]
        exact congrArg Finset.card (Finset.ext fun i => by
          rw [List.mem_toFinset, hacc.mem_signers])
      rw [hcount, ← hlength]
      exact hinner.quorum acc.innerAtts classical hassemble hacc.signers

theorem verifyCertificate_assemble (hinner : scheme.inner.Correct)
    {atts : List (Attestation (HybridSignature Sig))}
    (hatts : ∀ a ∈ atts, scheme.verifyAttestation encoding mayo subject a = true)
    (hcert : scheme.assemble atts = some (some cert)) :
    (scheme.verifyCertificate encoding mayo subject cert = true ↔
        scheme.pqQuorum ≤ (atts.map Attestation.signer).toFinset.card) ∧
      simplexQuorum scheme.inner.participants ≤ (atts.map Attestation.signer).toFinset.card := by
  obtain ⟨hclassical, hlen, hpqs, hpq, hcount, hquorum⟩ := assemble_spec hinner hatts hcert
  rw [hcount] at hquorum
  refine ⟨?_, hquorum⟩
  rw [verifyCertificate_iff, ← hcount]
  exact ⟨fun h => h.2.2.2.2, fun h => ⟨hclassical, hlen, hpqs, hpq, h⟩⟩

/-- What the constructor checks and builds. -/
theorem new_spec {inner : InnerScheme Subject Sig Cert} {baseNamespace : Bytes}
    {mayoPks : List Bytes} {mayoSeed : Option Bytes}
    (hnew : new inner baseNamespace mayoPks mayoSeed pqQuorum = some scheme) :
    scheme = ⟨inner, baseNamespace, mayoPks, mayoSeed, pqQuorum⟩ ∧
      (∀ pk ∈ mayoPks, pk.length = mayo2PkBytes) ∧ pqQuorum ≠ 0 ∧ pqQuorum ≤ mayoPks.length := by
  rw [new] at hnew
  split at hnew
  · cases hnew
  · rename_i hlength
    split at hnew
    · cases hnew
    · rename_i hpks
      split at hnew
      · cases hnew
      · rename_i hquorum
        obtain ⟨hpos, hle⟩ := not_or.mp hquorum
        refine ⟨(Option.some.inj hnew).symm, fun pk hpk => ?_, hpos, ?_⟩
        · by_contra hne
          exact hpks (List.any_eq_true.mpr ⟨pk, hpk, decide_eq_true hne⟩)
        · rw [not_not.mp hlength]
          exact Nat.not_lt.mp hle

/-- The distinct participants with a valid MAYO signature under their registered
key. -/
def SignedBy (encoding : SubjectEncoding Subject) (mayo : Bytes → Bytes → Bytes → Option Bool)
    (scheme : HybridScheme Subject Sig Cert) (subject : Subject)
    (signers : Finset Participant) : Prop :=
  ∀ i ∈ signers, ∃ sig : MayoSig, ∃ pk, scheme.mayoPks[i]? = some pk ∧
    mayoVerify mayo (scheme.namespacedMessage encoding subject) sig.val pk = true

/-- **Hybrid certificates.** An accepted certificate has a classical half that
verifies and a MAYO quorum. A certificate assembled from accepted votes is
accepted exactly if the votes have as many signers as the MAYO quorum wants,
which the classical quorum only guarantees if it is not smaller. -/
theorem hybridCertificate_correct {inner : InnerScheme Subject Sig Cert} (hinner : inner.Correct)
    (encoding : SubjectEncoding Subject) (mayo : Bytes → Bytes → Bytes → Option Bool)
    {baseNamespace : Bytes} {mayoPks : List Bytes} {mayoSeed : Option Bytes} {pqQuorum : Nat}
    {scheme : HybridScheme Subject Sig Cert}
    (hnew : new inner baseNamespace mayoPks mayoSeed pqQuorum = some scheme) (subject : Subject) :
    (∀ cert, scheme.verifyCertificate encoding mayo subject cert = true →
      inner.verifyCertificate subject cert.classical = true ∧
      ∃ signers, SignedBy encoding mayo scheme subject signers ∧ pqQuorum ≤ signers.card) ∧
    (∀ atts cert, (∀ a ∈ atts, scheme.verifyAttestation encoding mayo subject a = true) →
      scheme.assemble atts = some (some cert) →
      (scheme.verifyCertificate encoding mayo subject cert = true ↔
        pqQuorum ≤ (atts.map Attestation.signer).toFinset.card)) ∧
    (pqQuorum ≤ simplexQuorum inner.participants → ∀ atts cert,
      (∀ a ∈ atts, scheme.verifyAttestation encoding mayo subject a = true) →
      scheme.assemble atts = some (some cert) →
      scheme.verifyCertificate encoding mayo subject cert = true) := by
  obtain ⟨rfl, rfl⟩ : inner = scheme.inner ∧ pqQuorum = scheme.pqQuorum := by
    rw [(new_spec hnew).1]
    exact ⟨rfl, rfl⟩
  refine ⟨fun cert hverify => ?_,
    fun atts cert hatts hcert => (verifyCertificate_assemble hinner hatts hcert).1,
    fun hquorum atts cert hatts hcert => ?_⟩
  · obtain ⟨hclassical, -, hpqs, hpq, hquorum⟩ := verifyCertificate_iff.mp hverify
    refine ⟨hclassical, cert.signers.iter.toFinset, fun i hi => ?_, ?_⟩
    · -- the bitmap and the list of signatures have the same length
      have hfst : (cert.signers.iter.zip cert.pqSigs).map Prod.fst = cert.signers.iter :=
        List.map_fst_zip (le_of_eq hpqs.symm)
      rw [List.mem_toFinset, ← hfst, List.mem_map] at hi
      obtain ⟨x, hx, rfl⟩ := hi
      exact ⟨x.2, verifyPq_iff.mp (hpq x hx)⟩
    · rw [List.toFinset_card_of_nodup cert.signers.nodup_iter]
      exact hquorum
  · obtain ⟨hiff, hsigners⟩ := verifyCertificate_assemble hinner hatts hcert
    exact hiff.mpr (le_trans hquorum hsigners)

/-! ## Four participants -/

/-- A scheme that makes a certificate of any three votes. -/
def sampleInner : InnerScheme Unit Unit Unit where
  participants := 4
  verifyAttestation _ _ _ := true
  assemble atts := if 3 ≤ atts.length then some () else none
  verifyCertificate _ _ := true

theorem sampleInner_correct : sampleInner.Correct where
  quorum atts cert h _ := by
    by_contra hlt
    have hnone : sampleInner.assemble atts = none := if_neg hlt
    rw [hnone] at h
    cases h
  complete _ _ _ _ _ _ := rfl

def sampleEncoding : SubjectEncoding Unit := ⟨fun base _ => base, fun _ => []⟩

def sampleMayoSig : MayoSig := ⟨List.replicate mayo2SigBytes 1, List.length_replicate ..⟩

def sampleMayo (_ sig _ : Bytes) : Option Bool := some (sig = sampleMayoSig.val)

def sampleScheme (pqQuorum : Nat) : HybridScheme Unit Unit Unit :=
  ⟨sampleInner, [], List.replicate 4 (List.replicate mayo2PkBytes 0), none, pqQuorum⟩

theorem new_sampleScheme (hpos : pqQuorum ≠ 0) (hle : pqQuorum ≤ sampleInner.participants) :
    new sampleInner [] (List.replicate 4 (List.replicate mayo2PkBytes 0)) none pqQuorum =
      some (sampleScheme pqQuorum) := by
  have hpks : ¬ (List.replicate 4 (List.replicate mayo2PkBytes (0 : UInt8))).any
      (fun pk => pk.length ≠ mayo2PkBytes) = true := by simp
  rw [new, if_neg (by simp [sampleInner]), if_neg hpks,
    if_neg (not_or.mpr ⟨hpos, Nat.not_lt.mpr hle⟩)]
  rfl

/-- Three votes, and the third participant's once more. -/
def sampleVotes : List (Attestation (HybridSignature Unit)) :=
  [2, 0, 1, 2].map fun i => ⟨i, some ⟨(), sampleMayoSig⟩⟩

def sampleCert : HybridCertificate Unit :=
  ⟨(), ⟨[true, true, true, false]⟩, List.replicate 3 sampleMayoSig⟩

theorem sampleVotes_accepted (pqQuorum : Nat) : ∀ a ∈ sampleVotes,
    (sampleScheme pqQuorum).verifyAttestation sampleEncoding sampleMayo () a = true := by
  intro a ha
  obtain ⟨i, hi, rfl⟩ := List.mem_map.mp ha
  have hlt : i < 4 := (by decide : ∀ i ∈ [2, 0, 1, 2], i < 4) i hi
  have hpk : (List.replicate 4 (List.replicate mayo2PkBytes (0 : UInt8)))[i]? =
      some (List.replicate mayo2PkBytes 0) := List.getElem?_replicate_of_lt hlt
  refine verifyAttestation_iff.mpr ⟨⟨(), sampleMayoSig⟩, rfl, rfl, verifyPq_iff.mpr ⟨_, hpk, ?_⟩⟩
  simp [mayoVerify, sampleMayo]

theorem sampleVotes_assemble (pqQuorum : Nat) :
    (sampleScheme pqQuorum).assemble sampleVotes = some (some sampleCert) := by
  change (sampleScheme 0).assemble sampleVotes = some (some sampleCert)
  decide +kernel

theorem hybridCertificate_sample :
    (sampleScheme 3).verifyCertificate sampleEncoding sampleMayo () sampleCert = true :=
  (hybridCertificate_correct sampleInner_correct sampleEncoding sampleMayo
    (new_sampleScheme (by decide) (by decide)) ()).2.2 (by decide) _ _ (sampleVotes_accepted 3)
    (sampleVotes_assemble 3)

/-- With a MAYO quorum of four the scheme assembles a certificate it does not accept. -/
theorem hybridCertificate_rejects_own :
    new sampleInner [] (List.replicate 4 (List.replicate mayo2PkBytes 0)) none 4 =
        some (sampleScheme 4) ∧
      (∀ a ∈ sampleVotes,
        (sampleScheme 4).verifyAttestation sampleEncoding sampleMayo () a = true) ∧
      (sampleScheme 4).assemble sampleVotes = some (some sampleCert) ∧
      (sampleScheme 4).verifyCertificate sampleEncoding sampleMayo () sampleCert = false := by
  refine ⟨new_sampleScheme (by decide) (by decide), sampleVotes_accepted 4,
    sampleVotes_assemble 4, ?_⟩
  rw [← Bool.not_eq_true, verifyCertificate_iff]
  exact fun h => absurd h.2.2.2.2 (by decide)

end HybridScheme

end LayerSdk

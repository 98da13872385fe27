import LayerSdk.HybridCert

/-!
# Batches of votes

`verify_attestations` gives the classical halves of all votes to the classical
scheme at once, and then checks the MAYO half of each signer it lets through.
The votes are kept in a map by signer, so a signer's later vote replaces an
earlier one. The classical halves are not replaced: all of them are checked.

So the vote that is returned for a signer is its last one, whose MAYO half was
checked, while the classical half that was checked may be another vote's.
-/

namespace LayerSdk

/-- The votes that verified, and the signers of votes that did not. -/
structure Verification (Att : Type) where
  verified : List Att
  invalid : List Participant

/-- `verify_attestations` of the classical scheme. -/
abbrev InnerBatch (Subject Sig : Type) :=
  Subject → List (Participant × Sig) → Verification (Participant × Sig)

/-- A batch has the results of its votes checked one by one. -/
structure InnerScheme.BatchAgrees {Subject Sig Cert : Type} (inner : InnerScheme Subject Sig Cert)
    (batch : InnerBatch Subject Sig) : Prop where
  verified : ∀ subject atts a, a ∈ (batch subject atts).verified ↔
    a ∈ atts ∧ inner.verifyAttestation subject a.1 a.2 = true
  invalid : ∀ subject atts i, i ∈ (batch subject atts).invalid →
    ∃ a ∈ atts, a.1 = i ∧ inner.verifyAttestation subject a.1 a.2 = false

abbrev HybridVote (Sig : Type) := Attestation (HybridSignature Sig)

/-! ## The source's function -/

structure SplitVotes (Sig : Type) where
  innerAtts : List (Participant × Sig)
  orig : Std.ExtTreeMap Nat (HybridVote Sig)
  invalid : List Participant

def splitVote {Sig : Type} (acc : SplitVotes Sig) (att : HybridVote Sig) : SplitVotes Sig :=
  match att.signature with
  | some sig =>
    ⟨acc.innerAtts ++ [(att.signer, sig.classical)], acc.orig.insert att.signer att, acc.invalid⟩
  | none => ⟨acc.innerAtts, acc.orig, acc.invalid ++ [att.signer]⟩

def splitVotes {Sig : Type} (atts : List (HybridVote Sig)) : SplitVotes Sig :=
  atts.foldl splitVote ⟨[], ∅, []⟩

structure CheckedVotes (Sig : Type) where
  verified : List (HybridVote Sig)
  orig : Std.ExtTreeMap Nat (HybridVote Sig)
  invalid : List Participant

/-- A vote that the classical scheme let through takes its signer's entry. -/
def checkPq {Sig : Type} (verifyPq : Participant → MayoSig → Bool) (acc : CheckedVotes Sig)
    (innerAtt : Participant × Sig) : CheckedVotes Sig :=
  match acc.orig[innerAtt.1]? with
  | none => acc
  | some hybrid =>
    let orig := acc.orig.erase innerAtt.1
    match hybrid.signature with
    | none => ⟨acc.verified, orig, acc.invalid ++ [innerAtt.1]⟩
    | some sig =>
      if verifyPq innerAtt.1 sig.pq then ⟨acc.verified ++ [hybrid], orig, acc.invalid⟩
      else ⟨acc.verified, orig, acc.invalid ++ [innerAtt.1]⟩

namespace HybridScheme

variable {Subject Sig Cert : Type}

def verifyAttestations (encoding : SubjectEncoding Subject)
    (mayo : Bytes → Bytes → Bytes → Option Bool) (scheme : HybridScheme Subject Sig Cert)
    (batch : InnerBatch Subject Sig) (subject : Subject) (atts : List (HybridVote Sig)) :
    Verification (HybridVote Sig) :=
  let split := splitVotes atts
  let innerRes := batch subject split.innerAtts
  let acc := innerRes.verified.foldl (checkPq (scheme.verifyPq encoding mayo subject))
    ⟨[], split.orig, split.invalid ++ innerRes.invalid⟩
  ⟨acc.verified, acc.invalid ++ acc.orig.toList.map Prod.fst⟩

end HybridScheme

/-! ## The split -/

section Split

variable {Sig : Type}

/-- The last vote of a signer that decodes. -/
def lastVote (atts : List (HybridVote Sig)) (i : Participant) : Option (HybridVote Sig) :=
  atts.reverse.find? fun a => a.signer = i ∧ a.signature.isSome

variable {atts : List (HybridVote Sig)}

theorem lastVote_some {i : Participant} {a : HybridVote Sig} (h : lastVote atts i = some a) :
    a ∈ atts ∧ a.signer = i ∧ ∃ sig, a.signature = some sig := by
  rw [lastVote] at h
  have hmem := List.mem_of_find?_eq_some h
  have hfound := List.find?_some h
  obtain ⟨hsigner, hsome⟩ := of_decide_eq_true hfound
  exact ⟨List.mem_reverse.mp hmem, hsigner, Option.isSome_iff_exists.mp hsome⟩

/-- A signer with a vote that decodes has a last one. -/
theorem exists_lastVote {a : HybridVote Sig} (ha : a ∈ atts) {sig : HybridSignature Sig}
    (hsig : a.signature = some sig) : ∃ last, lastVote atts a.signer = some last := by
  rw [← Option.isSome_iff_exists, lastVote, List.find?_isSome]
  exact ⟨a, List.mem_reverse.mpr ha, by simp [hsig]⟩

theorem lastVote_append (atts : List (HybridVote Sig)) (a : HybridVote Sig) (i : Participant) :
    lastVote (atts ++ [a]) i =
      if a.signer = i ∧ a.signature.isSome then some a else lastVote atts i := by
  rw [lastVote, List.reverse_append, List.reverse_singleton, List.singleton_append,
    List.find?_cons]
  by_cases h : a.signer = i ∧ a.signature.isSome = true
  · rw [if_pos h, decide_eq_true h]
  · rw [if_neg h, decide_eq_false h, lastVote]

/-- What `splitVotes` makes of the votes. -/
structure SplitVotes.Of (atts : List (HybridVote Sig)) (split : SplitVotes Sig) : Prop where
  innerAtts : ∀ x, x ∈ split.innerAtts ↔
    ∃ a ∈ atts, ∃ sig, a.signature = some sig ∧ x = (a.signer, sig.classical)
  orig : ∀ i : Nat, split.orig[i]? = lastVote atts i
  invalid : ∀ i, i ∈ split.invalid ↔ ∃ a ∈ atts, a.signer = i ∧ a.signature = none

theorem SplitVotes.Of.step {split : SplitVotes Sig} (h : split.Of atts) (a : HybridVote Sig) :
    (splitVote split a).Of (atts ++ [a]) := by
  rw [splitVote]
  cases hsig : a.signature with
  | none =>
    refine ⟨fun x => ?_, fun i => ?_, fun i => ?_⟩
    · rw [h.innerAtts]
      simp [or_and_right, exists_or, hsig]
    · rw [h.orig, lastVote_append, if_neg (by simp [hsig])]
    · rw [List.mem_append, h.invalid]
      simp [or_and_right, exists_or, hsig, eq_comm]
  | some sig =>
    refine ⟨fun x => ?_, fun i => ?_, fun i => ?_⟩
    · rw [List.mem_append, h.innerAtts]
      simp [or_and_right, exists_or, hsig]
    · rw [Std.ExtTreeMap.getElem?_insert, h.orig, lastVote_append]
      simp [hsig]
    · rw [h.invalid]
      simp [or_and_right, exists_or, hsig]

theorem splitVotes_of (atts : List (HybridVote Sig)) : (splitVotes atts).Of atts := by
  induction atts using List.reverseRecOn with
  | nil => exact ⟨by simp [splitVotes], by simp [splitVotes, lastVote], by simp [splitVotes]⟩
  | append_singleton atts a ih =>
    rw [splitVotes, List.foldl_append]
    exact ih.step a

end Split

/-! ## The MAYO halves -/

section Check

variable {Sig : Type} {verifyPq : Participant → MayoSig → Bool}

/-- The MAYO half of a vote is valid. -/
def PqHalf (verifyPq : Participant → MayoSig → Bool) (a : HybridVote Sig) : Prop :=
  ∃ sig, a.signature = some sig ∧ verifyPq a.signer sig.pq = true

/-- Each signer has its entry checked when it first comes, and then has none. -/
structure CheckedVotes.After (verifyPq : Participant → MayoSig → Bool) (signers : List Participant)
    (acc acc' : CheckedVotes Sig) : Prop where
  verified : ∀ a, a ∈ acc'.verified ↔ a ∈ acc.verified ∨
    ∃ i ∈ signers, acc.orig[i]? = some a ∧ PqHalf verifyPq a
  invalid : ∀ i, i ∈ acc'.invalid ↔ i ∈ acc.invalid ∨
    i ∈ signers ∧ ∃ a, acc.orig[i]? = some a ∧ ¬ PqHalf verifyPq a
  orig : ∀ i : Nat, acc'.orig[i]? = if i ∈ signers then none else acc.orig[i]?

/-- Entries are under their own signer. -/
def CheckedVotes.Keyed (acc : CheckedVotes Sig) : Prop :=
  ∀ (i : Nat) (a : HybridVote Sig), acc.orig[i]? = some a → a.signer = i

theorem getElem?_eraseSigner (orig : Std.ExtTreeMap Nat (HybridVote Sig)) (i j : Nat) :
    (orig.erase i)[j]? = if j ∈ [i] then none else orig[j]? := by
  rw [Std.ExtTreeMap.getElem?_erase]
  simp only [Std.LawfulEqCmp.compare_eq_iff_eq, List.mem_singleton, @eq_comm _ j]

namespace CheckedVotes.After

variable {acc acc' acc'' : CheckedVotes Sig} {i : Participant} {hybrid : HybridVote Sig}

theorem accept (hentry : acc.orig[i]? = some hybrid) (hpq : PqHalf verifyPq hybrid) :
    acc.After verifyPq [i] ⟨acc.verified ++ [hybrid], acc.orig.erase i, acc.invalid⟩ where
  verified a := by
    rw [List.mem_append, List.mem_singleton]
    refine or_congr_right ⟨?_, ?_⟩
    · rintro rfl
      exact ⟨i, List.mem_singleton_self i, hentry, hpq⟩
    · rintro ⟨j, hj, ha, -⟩
      rw [List.mem_singleton.mp hj, hentry] at ha
      exact (Option.some.inj ha).symm
  invalid j := by
    refine (or_iff_left ?_).symm
    rintro ⟨hj, a, ha, hnot⟩
    rw [List.mem_singleton.mp hj, hentry] at ha
    exact hnot (Option.some.inj ha ▸ hpq)
  orig := getElem?_eraseSigner acc.orig i

theorem reject (hentry : acc.orig[i]? = some hybrid) (hpq : ¬ PqHalf verifyPq hybrid) :
    acc.After verifyPq [i] ⟨acc.verified, acc.orig.erase i, acc.invalid ++ [i]⟩ where
  verified a := by
    refine (or_iff_left ?_).symm
    rintro ⟨j, hj, ha, hhalf⟩
    rw [List.mem_singleton.mp hj, hentry] at ha
    exact hpq (Option.some.inj ha ▸ hhalf)
  invalid j := by
    rw [List.mem_append]
    refine or_congr_right ⟨fun hj => ⟨hj, hybrid, ?_, hpq⟩, fun h => h.1⟩
    rw [List.mem_singleton.mp hj]
    exact hentry
  orig := getElem?_eraseSigner acc.orig i

theorem step (hkeyed : acc.Keyed) (x : Participant × Sig) :
    acc.After verifyPq [x.1] (checkPq verifyPq acc x) := by
  rw [checkPq]
  cases hentry : acc.orig[x.1]? with
  | none =>
    refine ⟨by simp [hentry], by simp [hentry], fun j => ?_⟩
    by_cases hj : j = x.1
    · rw [if_pos (List.mem_singleton.mpr hj), hj]
      exact hentry
    · rw [if_neg (mt List.mem_singleton.mp hj)]
  | some hybrid =>
    have hsigner := hkeyed x.1 hybrid hentry
    dsimp only
    cases hsig : hybrid.signature with
    | none => exact reject hentry (by simp [PqHalf, hsig])
    | some sig =>
      have hpq : PqHalf verifyPq hybrid ↔ verifyPq x.1 sig.pq = true := by
        simp [PqHalf, hsig, hsigner]
      dsimp only
      by_cases hverify : verifyPq x.1 sig.pq = true
      · rw [if_pos hverify]
        exact accept hentry (hpq.mpr hverify)
      · rw [if_neg hverify]
        exact reject hentry (mt hpq.mp hverify)

theorem trans {first rest : List Participant} (h : acc.After verifyPq first acc')
    (h' : acc'.After verifyPq rest acc'') :
    acc.After verifyPq (first ++ rest) acc'' where
  verified a := by
    rw [h'.verified, h.verified, or_assoc]
    refine or_congr_right ⟨?_, ?_⟩
    · rintro (⟨i, hi, ha⟩ | ⟨i, hi, ha, hpq⟩)
      · exact ⟨i, List.mem_append_left _ hi, ha⟩
      · rw [h.orig] at ha
        split at ha
        · cases ha
        · exact ⟨i, List.mem_append_right _ hi, ha, hpq⟩
    · rintro ⟨i, hi, ha, hpq⟩
      by_cases hfirst : i ∈ first
      · exact .inl ⟨i, hfirst, ha, hpq⟩
      · refine .inr ⟨i, (List.mem_append.mp hi).resolve_left hfirst, ?_, hpq⟩
        rw [h.orig, if_neg hfirst]
        exact ha
  invalid i := by
    rw [h'.invalid, h.invalid, or_assoc, h.orig, List.mem_append]
    refine or_congr_right ?_
    by_cases hfirst : i ∈ first <;> simp [hfirst]
  orig i := by
    rw [h'.orig, h.orig]
    by_cases hfirst : i ∈ first <;> simp [hfirst]

end CheckedVotes.After

theorem foldl_checkPq : ∀ (votes : List (Participant × Sig)) {acc : CheckedVotes Sig}, acc.Keyed →
    acc.After verifyPq (votes.map Prod.fst) (votes.foldl (checkPq verifyPq) acc)
  | [], acc, _ => ⟨by simp, by simp, by simp⟩
  | x :: rest, acc, hkeyed => by
    have hstep : acc.After verifyPq [x.1] (checkPq verifyPq acc x) := .step hkeyed x
    have hkeyed' : (checkPq verifyPq acc x).Keyed := fun i a ha => by
      rw [hstep.orig] at ha
      split at ha
      · cases ha
      · exact hkeyed i a ha
    exact hstep.trans (foldl_checkPq rest hkeyed')

end Check

/-! ## The batch against its votes -/

namespace HybridScheme

variable {Subject Sig Cert : Type} {encoding : SubjectEncoding Subject}
  {mayo : Bytes → Bytes → Bytes → Option Bool} {scheme : HybridScheme Subject Sig Cert}
  {batch : InnerBatch Subject Sig} {subject : Subject} {atts : List (HybridVote Sig)}

/-- The classical half of a vote is valid. -/
def ClassicalHalf (scheme : HybridScheme Subject Sig Cert) (subject : Subject)
    (a : HybridVote Sig) : Prop :=
  ∃ sig, a.signature = some sig ∧
    scheme.inner.verifyAttestation subject a.signer sig.classical = true

theorem verifyAttestation_halves {a : HybridVote Sig} :
    scheme.verifyAttestation encoding mayo subject a = true ↔
      scheme.ClassicalHalf subject a ∧ PqHalf (scheme.verifyPq encoding mayo subject) a := by
  rw [verifyAttestation_iff]
  constructor
  · rintro ⟨sig, hsig, hclassical, hpq⟩
    exact ⟨⟨sig, hsig, hclassical⟩, sig, hsig, hpq⟩
  · rintro ⟨⟨sig, hsig, hclassical⟩, sig', hsig', hpq⟩
    obtain rfl := Option.some.inj (hsig.symm.trans hsig')
    exact ⟨sig, hsig, hclassical, hpq⟩

/-- The signers the classical scheme lets through have a vote with a valid classical
half. -/
theorem mem_innerVerified (hbatch : scheme.inner.BatchAgrees batch) {i : Participant} :
    i ∈ ((batch subject (splitVotes atts).innerAtts).verified).map Prod.fst ↔
      ∃ a ∈ atts, a.signer = i ∧ scheme.ClassicalHalf subject a := by
  rw [List.mem_map]
  constructor
  · rintro ⟨x, hx, rfl⟩
    obtain ⟨hmem, hverify⟩ := (hbatch.verified _ _ _).mp hx
    obtain ⟨a, ha, sig, hsig, rfl⟩ := ((splitVotes_of atts).innerAtts x).mp hmem
    exact ⟨a, ha, rfl, sig, hsig, hverify⟩
  · rintro ⟨a, ha, rfl, sig, hsig, hverify⟩
    refine ⟨(a.signer, sig.classical), (hbatch.verified _ _ _).mpr ⟨?_, hverify⟩, rfl⟩
    exact ((splitVotes_of atts).innerAtts _).mpr ⟨a, ha, sig, hsig, rfl⟩

/-- The loop over what the classical scheme lets through, and what it leaves. -/
theorem verifyAttestations_checked (encoding : SubjectEncoding Subject)
    (mayo : Bytes → Bytes → Bytes → Option Bool) (scheme : HybridScheme Subject Sig Cert)
    (batch : InnerBatch Subject Sig) (subject : Subject) (atts : List (HybridVote Sig)) : ∃ acc,
    CheckedVotes.After (scheme.verifyPq encoding mayo subject)
      ((batch subject (splitVotes atts).innerAtts).verified.map Prod.fst)
      ⟨[], (splitVotes atts).orig, (splitVotes atts).invalid ++
        (batch subject (splitVotes atts).innerAtts).invalid⟩ acc ∧
    scheme.verifyAttestations encoding mayo batch subject atts =
      ⟨acc.verified, acc.invalid ++ acc.orig.toList.map Prod.fst⟩ := by
  refine ⟨_, foldl_checkPq _ fun i a ha => ?_, rfl⟩
  rw [(splitVotes_of atts).orig] at ha
  exact (lastVote_some ha).2.1

/-- A vote is returned if it is its signer's last, its MAYO half is valid, and some
vote of the signer has a valid classical half. -/
theorem mem_verified_iff (hbatch : scheme.inner.BatchAgrees batch) {a : HybridVote Sig} :
    a ∈ (scheme.verifyAttestations encoding mayo batch subject atts).verified ↔
      lastVote atts a.signer = some a ∧ PqHalf (scheme.verifyPq encoding mayo subject) a ∧
        ∃ b ∈ atts, b.signer = a.signer ∧ scheme.ClassicalHalf subject b := by
  obtain ⟨acc, hafter, heq⟩ :=
    verifyAttestations_checked encoding mayo scheme batch subject atts
  rw [heq, hafter.verified, or_iff_right List.not_mem_nil]
  constructor
  · rintro ⟨i, hi, ha, hpq⟩
    rw [(splitVotes_of atts).orig] at ha
    obtain rfl := (lastVote_some ha).2.1
    exact ⟨ha, hpq, (mem_innerVerified hbatch).mp hi⟩
  · rintro ⟨hlast, hpq, hclassical⟩
    refine ⟨a.signer, (mem_innerVerified hbatch).mpr hclassical, ?_, hpq⟩
    rw [(splitVotes_of atts).orig]
    exact hlast

/-- A signer that is reported has a vote that is rejected. -/
theorem rejected_of_mem_invalid (hbatch : scheme.inner.BatchAgrees batch) {i : Participant}
    (hi : i ∈ (scheme.verifyAttestations encoding mayo batch subject atts).invalid) :
    ∃ a ∈ atts, a.signer = i ∧ scheme.verifyAttestation encoding mayo subject a = false := by
  obtain ⟨acc, hafter, heq⟩ :=
    verifyAttestations_checked encoding mayo scheme batch subject atts
  have hsplit := splitVotes_of atts
  simp only [← Bool.not_eq_true, verifyAttestation_halves]
  rw [heq] at hi
  rcases List.mem_append.mp hi with hi | hi
  · rw [hafter.invalid, List.mem_append] at hi
    rcases hi with (hi | hi) | ⟨-, a, ha, hpq⟩
    · -- a vote that does not decode
      obtain ⟨a, ha, hsigner, hsig⟩ := (hsplit.invalid i).mp hi
      refine ⟨a, ha, hsigner, fun h => ?_⟩
      obtain ⟨⟨sig, hsome, -⟩, -⟩ := h
      rw [hsig] at hsome
      cases hsome
    · -- one whose classical half the inner scheme rejects
      obtain ⟨x, hx, rfl, hverify⟩ := hbatch.invalid _ _ _ hi
      obtain ⟨a, ha, sig, hsig, rfl⟩ := (hsplit.innerAtts x).mp hx
      refine ⟨a, ha, rfl, fun h => ?_⟩
      obtain ⟨⟨sig', hsig', hclassical⟩, -⟩ := h
      obtain rfl := Option.some.inj (hsig.symm.trans hsig')
      rw [hclassical] at hverify
      cases hverify
    · rw [hsplit.orig] at ha
      obtain ⟨hmem, hsigner, -⟩ := lastVote_some ha
      exact ⟨a, hmem, hsigner, fun h => hpq h.2⟩
  · -- an entry nobody asked for: no vote of the signer has a valid classical half
    obtain ⟨⟨j, a⟩, hmem, rfl⟩ := List.mem_map.mp hi
    have ha := Std.ExtTreeMap.mem_toList_iff_getElem?_eq_some.mp hmem
    rw [hafter.orig] at ha
    split at ha
    · cases ha
    · rename_i hnone
      rw [hsplit.orig] at ha
      obtain ⟨hmem, hsigner, -⟩ := lastVote_some ha
      exact ⟨a, hmem, hsigner, fun h => hnone ((mem_innerVerified hbatch).mpr
        ⟨a, hmem, hsigner, h.1⟩)⟩

/-- A signer with a valid classical half in some vote has it in its last vote too, if
the MAYO half of that is valid, and has no other vote that is accepted. -/
def LastDecides (encoding : SubjectEncoding Subject) (mayo : Bytes → Bytes → Bytes → Option Bool)
    (scheme : HybridScheme Subject Sig Cert) (subject : Subject)
    (atts : List (HybridVote Sig)) : Prop :=
  ∀ a ∈ atts, scheme.ClassicalHalf subject a → ∀ last, lastVote atts a.signer = some last →
    (PqHalf (scheme.verifyPq encoding mayo subject) last → scheme.ClassicalHalf subject last) ∧
    (PqHalf (scheme.verifyPq encoding mayo subject) a → a = last)

/-- Votes of different signers. -/
theorem lastDecides_of_nodup (hnodup : (atts.map Attestation.signer).Nodup) :
    LastDecides encoding mayo scheme subject atts := by
  intro a ha hclassical last hlast
  obtain ⟨hmem, hsigner, -⟩ := lastVote_some hlast
  obtain rfl := List.inj_on_of_nodup_map hnodup ha hmem hsigner.symm
  exact ⟨fun _ => hclassical, fun _ => rfl⟩

/-- **Batches of votes.** A signer that is reported has a rejected vote. The votes
returned are those that are accepted one by one exactly if each signer's last vote
decides for it. -/
theorem verifyAttestations_exact_iff (encoding : SubjectEncoding Subject)
    (mayo : Bytes → Bytes → Bytes → Option Bool) {scheme : HybridScheme Subject Sig Cert}
    {batch : InnerBatch Subject Sig} (hbatch : scheme.inner.BatchAgrees batch) (subject : Subject)
    (atts : List (HybridVote Sig)) :
    (∀ i ∈ (scheme.verifyAttestations encoding mayo batch subject atts).invalid,
      ∃ a ∈ atts, a.signer = i ∧ scheme.verifyAttestation encoding mayo subject a = false) ∧
    ((∀ a, a ∈ (scheme.verifyAttestations encoding mayo batch subject atts).verified ↔
        a ∈ atts ∧ scheme.verifyAttestation encoding mayo subject a = true) ↔
      LastDecides encoding mayo scheme subject atts) := by
  refine ⟨fun i hi => rejected_of_mem_invalid hbatch hi, ?_⟩
  simp only [mem_verified_iff hbatch, verifyAttestation_halves]
  constructor
  · intro h a ha hclassical last hlast
    obtain ⟨-, hsigner, -⟩ := lastVote_some hlast
    refine ⟨fun hpq => ?_, fun hpq => ?_⟩
    · exact ((h last).mp ⟨hsigner ▸ hlast, hpq, a, ha, hsigner.symm, hclassical⟩).2.1
    · exact Option.some.inj (((h a).mpr ⟨ha, hclassical, hpq⟩).1.symm.trans hlast)
  · intro hdecides a
    constructor
    · rintro ⟨hlast, hpq, b, hb, hsigner, hclassical⟩
      refine ⟨(lastVote_some hlast).1, ?_, hpq⟩
      exact (hdecides b hb hclassical a (hsigner ▸ hlast)).1 hpq
    · rintro ⟨ha, hclassical, hpq⟩
      have ⟨sig, hsig, _⟩ := hclassical
      obtain ⟨last, hlast⟩ := exists_lastVote ha hsig
      obtain rfl := (hdecides a ha hclassical last hlast).2 hpq
      exact ⟨hlast, hpq, a, ha, rfl, hclassical⟩

/-! ## One signer, two votes -/

/-- The votes of a batch one by one. -/
def oneByOne (inner : InnerScheme Subject Sig Cert) : InnerBatch Subject Sig := fun subject atts =>
  ⟨atts.filter fun a => inner.verifyAttestation subject a.1 a.2,
    (atts.filter fun a => !inner.verifyAttestation subject a.1 a.2).map Prod.fst⟩

theorem oneByOne_agrees (inner : InnerScheme Subject Sig Cert) :
    inner.BatchAgrees (oneByOne inner) where
  verified _ _ _ := List.mem_filter
  invalid subject atts i hi := by
    obtain ⟨a, ha, rfl⟩ := List.mem_map.mp hi
    obtain ⟨hmem, hverify⟩ := List.mem_filter.mp ha
    exact ⟨a, hmem, rfl, Bool.not_eq_true' _ ▸ hverify⟩

/-- A classical signature is right or wrong. -/
def twoFacedInner : InnerScheme Unit Bool Unit where
  participants := 4
  verifyAttestation _ i sig := i < 4 && sig
  assemble _ := none
  verifyCertificate _ _ := false

def twoFacedScheme : HybridScheme Unit Bool Unit :=
  ⟨twoFacedInner, [], List.replicate 4 (List.replicate mayo2PkBytes 0), none, 3⟩

def twoFacedVote (i : Participant) (classical : Bool) : HybridVote Bool :=
  ⟨i, some ⟨classical, sampleMayoSig⟩⟩

theorem pqHalf_twoFacedVote {i : Participant} (hi : i < 4) (classical : Bool) :
    PqHalf (twoFacedScheme.verifyPq sampleEncoding sampleMayo ()) (twoFacedVote i classical) := by
  have hpk : twoFacedScheme.mayoPks[i]? = some (List.replicate mayo2PkBytes 0) :=
    List.getElem?_replicate_of_lt hi
  refine ⟨⟨classical, sampleMayoSig⟩, rfl, verifyPq_iff.mpr ⟨_, hpk, ?_⟩⟩
  simp [mayoVerify, sampleMayo]

/-- A good vote, one that does not decode, one with a wrong classical half and one of
nobody. -/
def fourVotes : List (HybridVote Bool) :=
  [twoFacedVote 0 true, ⟨1, none⟩, twoFacedVote 2 false, twoFacedVote 7 true]

theorem verifyAttestations_fourVotes :
    twoFacedVote 0 true ∈ (twoFacedScheme.verifyAttestations sampleEncoding sampleMayo
      (oneByOne twoFacedInner) () fourVotes).verified := by
  have hdecides : LastDecides sampleEncoding sampleMayo twoFacedScheme () fourVotes :=
    lastDecides_of_nodup (by decide)
  refine ((verifyAttestations_exact_iff sampleEncoding sampleMayo
    (oneByOne_agrees twoFacedInner) () fourVotes).2.mpr hdecides _).mpr ⟨List.mem_cons_self, ?_⟩
  exact verifyAttestation_halves.mpr ⟨⟨_, rfl, rfl⟩, pqHalf_twoFacedVote (by decide) true⟩

/-- A good vote followed by one with a wrong classical half: the wrong one is returned
as verified and the good one is not. -/
theorem verifyAttestations_swaps :
    let votes := [twoFacedVote 0 true, twoFacedVote 0 false]
    let verified := (twoFacedScheme.verifyAttestations sampleEncoding sampleMayo
      (oneByOne twoFacedInner) () votes).verified
    let accepts := twoFacedScheme.verifyAttestation sampleEncoding sampleMayo ()
    twoFacedVote 0 false ∈ verified ∧ twoFacedVote 0 true ∉ verified ∧
      accepts (twoFacedVote 0 false) = false ∧ accepts (twoFacedVote 0 true) = true := by
  intro votes verified accepts
  have hlast : lastVote votes 0 = some (twoFacedVote 0 false) := rfl
  have hclassical : twoFacedScheme.ClassicalHalf () (twoFacedVote 0 true) := ⟨_, rfl, rfl⟩
  have hpq := fun classical => pqHalf_twoFacedVote (i := 0) (by decide) classical
  refine ⟨?_, ?_, ?_, ?_⟩
  · exact (mem_verified_iff (oneByOne_agrees twoFacedInner)).mpr
      ⟨hlast, hpq false, _, List.mem_cons_self, rfl, hclassical⟩
  · intro hmem
    obtain ⟨hgood, -⟩ := (mem_verified_iff (oneByOne_agrees twoFacedInner)).mp hmem
    have heq : twoFacedVote 0 false = twoFacedVote 0 true :=
      Option.some.inj (hlast.symm.trans hgood)
    simp [twoFacedVote] at heq
  · rfl
  · exact verifyAttestation_halves.mpr ⟨hclassical, hpq true⟩

end HybridScheme

end LayerSdk

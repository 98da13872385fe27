import LayerSdk.Ibc
import LayerSdk.Reference
import LayerSdk.StorageLogic

/-!
# Keys and escrow accounts of channels

A channel is known by the two texts of its port and its id. They enter the
storage keys of the channel with `/channels/` between them, and the hash of
its escrow account with nothing between them. This module says which pairs
of channels are kept apart by that.
-/

namespace LayerSdk

open EffectProg

namespace Ibc

/-! ## Texts with a common beginning or end -/

/-- Texts that start differently are different. -/
theorem append_ne_append {a b x y : String} (hab : a.toList.isPrefixOf b.toList = false)
    (hba : b.toList.isPrefixOf a.toList = false) : a ++ x ≠ b ++ y := by
  intro h
  have hlist : a.toList ++ x.toList = b.toList ++ y.toList := by
    rw [← String.toList_append, ← String.toList_append, h]
  rcases List.prefix_or_prefix_of_prefix (List.prefix_append a.toList x.toList)
    (hlist ▸ List.prefix_append b.toList y.toList) with hpre | hpre
  · rw [← List.isPrefixOf_iff_prefix] at hpre
    rw [hpre] at hab
    cases hab
  · rw [← List.isPrefixOf_iff_prefix] at hpre
    rw [hpre] at hba
    cases hba

/-- A text is cut at its last slash in one way. -/
theorem append_slash_inj {a b d e : List Char} (hd : '/' ∉ d) (he : '/' ∉ e)
    (h : a ++ '/' :: d = b ++ '/' :: e) : a = b ∧ d = e := by
  have hrev := congrArg List.reverse h
  simp only [List.reverse_append, List.reverse_cons, List.append_assoc, List.singleton_append]
    at hrev
  obtain ⟨hde, hab⟩ := append_sep_inj (by simpa using hd) (by simpa using he) hrev
  exact ⟨List.reverse_injective hab, List.reverse_injective hde⟩

/-! ## The keys -/

/-- What the identifiers contribute to a key. -/
def channelText (portId channelId : String) : String := portId ++ "/channels/" ++ channelId

/-- The keys that belong to a channel. -/
inductive ChannelKey (portId channelId : String) : Bytes → Prop
  | channel : ChannelKey portId channelId (channelPath portId channelId)
  | nextSequenceSend : ChannelKey portId channelId (nextSequenceSendPath portId channelId)
  | packetCommitment (sequence : Nat) :
      ChannelKey portId channelId (packetCommitmentPath portId channelId sequence)
  | packetData (sequence : Nat) :
      ChannelKey portId channelId (packetDataPath portId channelId sequence)

/-- The four kinds of keys. -/
inductive KeyKind where
  | channelEnds
  | nextSequenceSend
  | commitments
  | packetData

def KeyKind.text : KeyKind → String
  | channelEnds => "ibc/channelEnds/ports/"
  | nextSequenceSend => "ibc/nextSequenceSend/ports/"
  | commitments => "ibc/commitments/ports/"
  | packetData => "ibc/packetData/ports/"

/-- What follows the kind. -/
def KeyKind.rest (portId channelId : String) (sequence : Nat) : KeyKind → String
  | channelEnds => channelText portId channelId
  | nextSequenceSend => channelText portId channelId
  | commitments => channelText portId channelId ++ "/sequences/" ++ Nat.repr sequence
  | packetData => channelText portId channelId ++ "/sequences/" ++ Nat.repr sequence

theorem KeyKind.text_append_inj {a b : KeyKind} {x y : String} (h : a.text ++ x = b.text ++ y) :
    a = b ∧ x = y := by
  by_cases hab : a = b
  · subst hab
    exact ⟨rfl, string_append_cancel h⟩
  · refine absurd h (append_ne_append ?_ ?_)
    all_goals
      cases a <;> cases b <;> first | rfl | exact absurd rfl hab

variable {p c p' c' : String}

theorem KeyKind.rest_inj {k : KeyKind} {n n' : Nat} (h : k.rest p c n = k.rest p' c' n') :
    channelText p c = channelText p' c' := by
  have hseq : channelText p c ++ "/sequences/" ++ Nat.repr n =
      channelText p' c' ++ "/sequences/" ++ Nat.repr n' → channelText p c = channelText p' c' := by
    intro h
    have hlist := congrArg String.toList h
    have hcut : (channelText p c).toList ++ "/sequences".toList ++ '/' :: (Nat.repr n).toList =
        (channelText p' c').toList ++ "/sequences".toList ++ '/' :: (Nat.repr n').toList := by
      simpa using hlist
    -- the digits have no slash, so the last slash is the one before them
    have htext := (append_slash_inj (notMem_repr rfl n) (notMem_repr rfl n') hcut).1
    exact String.toList_inj.mp (List.append_cancel_right htext)
  cases k with
  | channelEnds | nextSequenceSend => exact h
  | commitments | packetData => exact hseq h

theorem ChannelKey.exists_kind {key : Bytes} (h : ChannelKey p c key) :
    ∃ (k : KeyKind) (n : Nat), key = str (k.text ++ k.rest p c n) := by
  cases h with
  | channel => exact ⟨.channelEnds, 0, rfl⟩
  | nextSequenceSend => exact ⟨.nextSequenceSend, 0, rfl⟩
  | packetCommitment n => exact ⟨.commitments, n, rfl⟩
  | packetData n => exact ⟨.packetData, n, rfl⟩

/-- Two channels share a key only if they share the text of their identifiers. -/
theorem ChannelKey.text_eq {key : Bytes} (h : ChannelKey p c key) (h' : ChannelKey p' c' key) :
    channelText p c = channelText p' c' := by
  obtain ⟨k, n, hkey⟩ := h.exists_kind
  obtain ⟨k', n', hkey'⟩ := h'.exists_kind
  obtain ⟨rfl, hrest⟩ := KeyKind.text_append_inj (str_inj (hkey.symm.trans hkey'))
  exact KeyKind.rest_inj hrest

theorem channelPath_congr (h : channelText p c = channelText p' c') :
    channelPath p c = channelPath p' c' := by
  have hpath : ∀ p c, channelPath p c = str (KeyKind.channelEnds.text ++ channelText p c) :=
    fun _ _ => rfl
  rw [hpath, hpath, h]

/-! ## Escrow accounts -/

/-- What is hashed for the escrow account. -/
def escrowPreimage (portId channelId : String) : Bytes :=
  str "ics20-1" ++ str portId ++ str channelId

theorem escrowPreimage_inj : escrowPreimage p c = escrowPreimage p' c' ↔ p ++ c = p' ++ c' := by
  rw [escrowPreimage, escrowPreimage, List.append_assoc, List.append_assoc,
    List.append_cancel_left_eq, ← str_append, ← str_append]
  exact ⟨str_inj, congrArg str⟩

theorem length_escrowPreimage (p c : String) :
    (escrowPreimage p c).length = 7 + (str (p ++ c)).length := by
  rw [escrowPreimage, List.append_assoc, ← str_append, List.length_append]
  rfl

variable (E : Externals)

/-- SHA-256 cut to an address. -/
def addressOf (b : Bytes) : Bytes := (E.crypto.sha256 b).bytes.take 20

/-- No other escrow account of the two and no other key of 32 bytes has the address of
one of the two escrow accounts. -/
def EscrowCollisionFree (p c p' c' : String) : Prop :=
  ∀ x ∈ [escrowPreimage p c, escrowPreimage p' c'],
    ∀ y, y.length = 32 ∨ y ∈ [escrowPreimage p c, escrowPreimage p' c'] →
      addressOf E x = addressOf E y → x = y

theorem escrowAccount_inj (hcf : EscrowCollisionFree E p c p' c') :
    escrowAccount E p c = escrowAccount E p' c' ↔ p ++ c = p' ++ c' := by
  rw [← escrowPreimage_inj]
  constructor
  · intro h
    exact hcf _ (List.mem_cons_self) _ (.inr (List.mem_cons_of_mem _ (List.mem_cons_self)))
      (congrArg AccountId.bytes h)
  · intro h
    exact AccountId.ext_bytes (congrArg (addressOf E) h)

/-- No Ed25519 key has the address. -/
def Keyless (a : AccountId) : Prop :=
  ∀ pk : Bytes, pk.length = 32 → (PubKey.ed25519 pk).accountId E.crypto ≠ .ok a

theorem accountId_ed25519 (pk : Bytes) :
    ∃ a, (PubKey.ed25519 pk).accountId E.crypto = .ok a ∧ a.bytes = addressOf E pk := by
  have hlen : (addressOf E pk).length ∈ validAddrLength := by
    simp [addressOf, Digest.length_bytes, validAddrLength]
  exact ⟨⟨addressOf E pk, hlen⟩, dif_pos hlen, rfl⟩

/-- The one key that could have the address of an escrow account is the hashed text
itself, if it has the length of a key. -/
theorem keyless_iff
    (hcf : ∀ y : Bytes, y.length = 32 → addressOf E (escrowPreimage p c) = addressOf E y →
      escrowPreimage p c = y) : Keyless E (escrowAccount E p c) ↔ (str (p ++ c)).length ≠ 25 := by
  constructor
  · intro hkeyless hlen
    obtain ⟨a, ha, hbytes⟩ := accountId_ed25519 E (escrowPreimage p c)
    have heq : a = escrowAccount E p c := AccountId.ext_bytes hbytes
    exact hkeyless _ (by rw [length_escrowPreimage, hlen]) (heq ▸ ha)
  · intro hlen pk hpk haccount
    obtain ⟨a, ha, hbytes⟩ := accountId_ed25519 E pk
    obtain rfl : a = escrowAccount E p c := Except.ok.inj (ha.symm.trans haccount)
    have hpre := hcf pk hpk hbytes
    have hsize := length_escrowPreimage p c
    rw [hpre, hpk] at hsize
    omega

/-! ## Isolation -/

/-- Two channels have nothing in common, and no user controls their escrow. -/
structure Isolated (p c p' c' : String) : Prop where
  escrow : escrowAccount E p c ≠ escrowAccount E p' c'
  keys : ∀ key, ChannelKey p c key → ¬ ChannelKey p' c' key
  keyless : Keyless E (escrowAccount E p c)
  keyless' : Keyless E (escrowAccount E p' c')

theorem isolated_iff (hcf : EscrowCollisionFree E p c p' c') : Isolated E p c p' c' ↔
      p ++ c ≠ p' ++ c' ∧ channelText p c ≠ channelText p' c' ∧
        (str (p ++ c)).length ≠ 25 ∧ (str (p' ++ c')).length ≠ 25 := by
  have hk := keyless_iff E fun y hy =>
    hcf (escrowPreimage p c) (List.mem_cons_self) y (.inl hy)
  have hk' := keyless_iff E fun y hy =>
    hcf (escrowPreimage p' c') (List.mem_cons_of_mem _ (List.mem_cons_self)) y (.inl hy)
  constructor
  · intro h
    refine ⟨fun heq => h.escrow ((escrowAccount_inj E hcf).mpr heq), fun htext => ?_,
      hk.mp h.keyless, hk'.mp h.keyless'⟩
    exact h.keys _ .channel (channelPath_congr htext ▸ .channel)
  · rintro ⟨hescrow, htext, hlen, hlen'⟩
    exact ⟨fun heq => hescrow ((escrowAccount_inj E hcf).mp heq),
      fun key hkey hkey' => htext (hkey.text_eq hkey'), hk.mpr hlen, hk'.mpr hlen'⟩

/-! ## Channels of one chain -/

section Accepted

variable {place : Bytes → Bytes} {P : Store → Prop} {R : PulsarError → Store → Prop}

theorem spec_readOr {key : Bytes} {e : IbcError} {Q : Bytes → Store → Prop}
    (hok : ∀ raw st, P st → st[place key]? = some raw → Q raw st)
    (herr : ∀ e st, P st → R e st) : Spec place P (readOr key e) Q R := by
  refine .bind (Q := fun value st => P st ∧ st[place key]? = value)
    (.get (fun st hP => ⟨hP, rfl⟩) herr) fun value => ?_
  cases value with
  | some raw => exact .pure fun st hP => hok raw st hP.1 hP.2
  | none => exact .throw fun st hP => herr _ st hP.1

theorem spec_decodeAs {α : Type} {codec : ProtoCodec α} {name : String} {raw : Bytes}
    {Q : α → Store → Prop} (hok : ∀ x st, codec.decode raw = .ok x → P st → Q x st)
    (herr : ∀ e st, P st → R e st) : Spec place P (decodeAs codec name raw) Q R := by
  rw [decodeAs]
  cases hdecode : codec.decode raw with
  | ok x => exact .pure fun st => hok x st hdecode
  | error e => exact .throw fun st => herr _ st

/-- A channel is accepted only where none has its path. -/
theorem spec_chanOpenInit {p c conn p' c' ordering version : String} :
    Spec place P (chanOpenInit E p c conn p' c' ordering version)
      (fun _ _ => ∃ st, P st ∧ st[place (channelPath p c)]? = none) fun _ _ => True := by
  refine .bind (spec_readOr (Q := fun _ => P) (fun _ _ hP _ => hP) fun _ _ _ => trivial)
    fun connRaw => ?_
  refine .bind (spec_decodeAs (Q := fun _ => P) (fun _ _ _ hP => hP) fun _ _ _ => trivial)
    fun conn => ?_
  refine .ite (fun _ => .throw fun _ _ => trivial) fun _ => ?_
  refine .bind (Q := fun value st => P st ∧ st[place (channelPath p c)]? = value)
    (.get (fun st hP => ⟨hP, rfl⟩) fun _ _ _ => trivial) fun value => ?_
  cases value with
  | some raw => exact .throw fun _ _ => trivial
  | none =>
    refine .bind (Q := fun _ _ => ∃ st, P st ∧ st[place (channelPath p c)]? = none)
      (.set (fun st hP => ⟨st, hP⟩) fun _ _ _ => trivial) fun _ => ?_
    exact .set (fun _ h => h) fun _ _ _ => trivial

end Accepted

/-- `chan_open_init` goes through for the channel on a storage that shows `st`. -/
def Accepts (st : Store) (p c : String) : Prop :=
  ∃ (σ : Type) (h : StorageObj σ) (view : σ → Store), Storing h id view ∧
    ∃ conn p' c' ordering version m m' s s', view s = st ∧
      Comp.exec h (chanOpenInit E p c conn p' c' ordering version) m s = some (s', .ok (), m')

theorem Accepts.getElem? {st : Store} {p c : String} (h : Accepts E st p c) :
    st[channelPath p c]? = none := by
  obtain ⟨σ, h, view, hs, conn, p', c', ordering, version, m, m', s, s', hview, hexec⟩ := h
  obtain ⟨st', rfl, hnone⟩ := spec_chanOpenInit E (P := fun st' => st' = st) hs hexec hview
  exact hnone

/-- **Channel isolation.** Two channels are isolated if and only if the bare
concatenations of their identifiers differ and neither has the length that makes
a key of 32 bytes, and their texts with `/channels/` differ. The last holds of
every two channels of one chain, as the second is accepted beside the first. -/
theorem channels_isolated_iff (p c p' c' : String) (hcf : EscrowCollisionFree E p c p' c') :
    (Isolated E p c p' c' ↔
      p ++ c ≠ p' ++ c' ∧ channelText p c ≠ channelText p' c' ∧
        (str (p ++ c)).length ≠ 25 ∧ (str (p' ++ c')).length ≠ 25) ∧
    ∀ st : Store, st[channelPath p' c']? ≠ none → Accepts E st p c →
      channelText p c ≠ channelText p' c' := by
  refine ⟨isolated_iff E hcf, fun st hother haccepts htext => hother ?_⟩
  rw [← channelPath_congr htext]
  exact haccepts.getElem?

/-- SHA-256 on the escrow texts of two channels, with nothing else hashing to their
addresses. -/
def sampleEscrowHash (b : Bytes) : Digest :=
  if [escrowPreimage "transfer" "channel-0", escrowPreimage "transfer" "channel-1"].contains b then
    sha256 b
  else ⟨List.replicate 32 1, by decide⟩

def sampleChannelExternals : Externals :=
  { Externals.ofValues {} with crypto := .ofHash sampleEscrowHash }

theorem channels_isolated_iff_sample :
    EscrowCollisionFree sampleChannelExternals "transfer" "channel-0" "transfer" "channel-1" ∧
      Isolated sampleChannelExternals "transfer" "channel-0" "transfer" "channel-1" := by
  have hcf : EscrowCollisionFree sampleChannelExternals "transfer" "channel-0" "transfer"
      "channel-1" := by
    intro x hx y _ heq
    by_cases hy : y ∈ [escrowPreimage "transfer" "channel-0", escrowPreimage "transfer" "channel-1"]
    · have hpair : ∀ x ∈ [escrowPreimage "transfer" "channel-0",
          escrowPreimage "transfer" "channel-1"], ∀ y ∈ [escrowPreimage "transfer" "channel-0",
          escrowPreimage "transfer" "channel-1"],
          addressOf sampleChannelExternals x = addressOf sampleChannelExternals y → x = y := by
        decide +kernel
      exact hpair x hx y hy heq
    · have hother : addressOf sampleChannelExternals y = List.replicate 20 1 := by
        change (sampleEscrowHash y).bytes.take 20 = _
        rw [sampleEscrowHash, if_neg (mt List.contains_iff_mem.mp hy)]
        rfl
      have hne : ∀ x ∈ [escrowPreimage "transfer" "channel-0",
          escrowPreimage "transfer" "channel-1"],
          addressOf sampleChannelExternals x ≠ List.replicate 20 1 := by decide +kernel
      exact absurd (heq.trans hother) (hne x hx)
  exact ⟨hcf, (channels_isolated_iff sampleChannelExternals _ _ _ _ hcf).1.mpr (by decide +kernel)⟩

/-! ## Two channels with one escrow account -/

def openConnection : ConnectionEnd := ⟨"08-wasm-0", [], connectionStateOpen, none, 0⟩

def freshChannel : Channel := ⟨channelStateInit, orderUnordered, some ⟨"transfer", ""⟩,
  ["connection-0"], "ics20-1"⟩

def sharedEscrowExternals : Externals :=
  .ofValues { connections := [openConnection], channels := [freshChannel] }

/-- A store with an open connection. -/
def connectedStore : Store :=
  (∅ : Store).insert (connectionPath "connection-0") openConnection.proto

/-- Port `a` with channel `bc`, then port `ab` with channel `c`. -/
def openTwoChannels : StorageM PulsarError Unit := do
  chanOpenInit sharedEscrowExternals "a" "bc" "connection-0" "transfer" "" "unordered" "ics20-1"
  chanOpenInit sharedEscrowExternals "ab" "c" "connection-0" "transfer" "" "unordered" "ics20-1"

theorem openTwoChannels_share_escrow :
    ((Comp.exec (writerObj .memory) openTwoChannels .infinite
      ⟨connectedStore, ∅, .new []⟩).map fun x => x.2.1.isOk) = some true ∧
    escrowAccount sharedEscrowExternals "a" "bc" = escrowAccount sharedEscrowExternals "ab" "c" := by
  refine ⟨by decide +kernel, ?_⟩
  decide +kernel

end Ibc

end LayerSdk

import LayerSdk.Transcript
import LayerSdk.Sha256Eval
import Mathlib.Data.List.TakeWhile

/-!
# What an anchor commits to

An anchor is a root over the ids of a transcript. The root binds the ids in
their order, their number included (`merkleRoot_binding`): a promoted odd node
keeps the tag of its own level, so no list of another length folds to it.

Which events the root is over is fixed by the events of the window as a set
(`anchorPackage_longest`). The loop that looks for the cut only goes on while
everything so far fits, and it remembers the last end of a second it has met
(`cutLoop_longest`); sizes only grow, so what it remembers is the longest
whole-second start that fits.
-/

namespace LayerSdk.TranscriptAnchor

open PairTree

/-! ## The root -/

def leafHash (H : Bytes → Digest) (eventId : Digest) : Digest := H (0x00 :: eventId.bytes)

/-- An empty window trips the assertion. -/
def merkleRoot (H : Bytes → Digest) (leaves : List Digest) : Option Digest :=
  if leaves = [] then none else (reduceLoop (nodeHash H) leaves.length leaves).head?

/-- The root of the state tree over the same leaves. -/
theorem merkleRoot_eq {H : Bytes → Digest} {leaves : List Digest} (hne : leaves ≠ []) :
    merkleRoot H leaves = some (LayerSdk.merkleRoot H leaves) := by
  have hlen : (reduceLoop (nodeHash H) leaves.length leaves).length = 1 :=
    length_reduceLoop _ _ _ (List.length_pos_iff.mpr hne) (Nat.le_succ _)
  obtain ⟨root, hroot⟩ := List.length_eq_one_iff.mp hlen
  rw [merkleRoot, if_neg hne, LayerSdk.merkleRoot, hroot, List.head?_cons]

/-- Two lists of event ids with one root are equal, whatever their lengths, if the strings
hashed for them have no collision. -/
theorem merkleRoot_binding {H : Bytes → Digest} {ids ids' : List Digest} {root : Digest}
    (hcf : CollisionFree H
      (rootInputs H (ids.map Digest.bytes) ++ rootInputs H (ids'.map Digest.bytes)))
    (h : merkleRoot H (ids.map (leafHash H)) = some root)
    (h' : merkleRoot H (ids'.map (leafHash H)) = some root) : ids = ids' := by
  have hstate : ∀ {l : List Digest}, merkleRoot H (l.map (leafHash H)) = some root →
      LayerSdk.merkleRoot H ((l.map Digest.bytes).map fun x => H (0x00 :: x)) = root := by
    intro l hl
    have hne : l.map (leafHash H) ≠ [] := by
      intro hnil
      rw [hnil] at hl
      cases hl
    rw [List.map_map]
    exact Option.some.inj ((merkleRoot_eq hne).symm.trans hl)
  have hbytes := merkleRoot_inj H hcf ((hstate h).trans (hstate h').symm)
  exact List.map_injective_iff.mpr (fun _ _ => Digest.ext_bytes) hbytes

/-- The ids `[1; 32]`, `[2; 32]`, `[3; 32]`. -/
def threeIds : List Digest :=
  [⟨List.replicate 32 1, rfl⟩, ⟨List.replicate 32 2, rfl⟩, ⟨List.replicate 32 3, rfl⟩]

theorem merkleRoot_binding_threeIds :
    CollisionFree sha256
      (rootInputs sha256 (threeIds.map Digest.bytes) ++ rootInputs sha256
        (threeIds.map Digest.bytes)) ∧
      threeIds = threeIds := by
  have hcf : CollisionFree sha256
      (rootInputs sha256 (threeIds.map Digest.bytes) ++ rootInputs sha256
        (threeIds.map Digest.bytes)) := by
    simp only [sha256_eq_eval]
    decide +kernel
  have hroot := @merkleRoot_eq sha256 (threeIds.map (leafHash sha256)) nofun
  exact ⟨hcf, merkleRoot_binding hcf hroot hroot⟩

end LayerSdk.TranscriptAnchor

namespace LayerSdk.Checkpoint

/-! ## The order of a window -/

theorem mem_of_mem_dedupLast : ∀ {events : List Event} {e : Event}, e ∈ dedupLast events →
    e ∈ events
  | x :: rest, e, h => by
    rw [dedupLast] at h
    split at h
    · exact List.mem_cons_of_mem _ (mem_of_mem_dedupLast h)
    · rcases List.mem_cons.mp h with rfl | h
      · exact List.mem_cons_self
      · exact List.mem_cons_of_mem _ (mem_of_mem_dedupLast h)

theorem exists_mem_dedupLast : ∀ {events : List Event} {e : Event}, e ∈ events →
    ∃ x ∈ dedupLast events, x.id = e.id
  | x :: rest, e, h => by
    rw [dedupLast]
    rcases List.mem_cons.mp h with rfl | h
    · split
      · next hlater =>
          obtain ⟨y, hy, hid⟩ := List.any_eq_true.mp hlater
          obtain ⟨z, hz, hzy⟩ := exists_mem_dedupLast hy
          exact ⟨z, hz, hzy.trans (of_decide_eq_true hid)⟩
      · exact ⟨e, List.mem_cons_self, rfl⟩
    · obtain ⟨z, hz, hze⟩ := exists_mem_dedupLast h
      split
      · exact ⟨z, hz, hze⟩
      · exact ⟨z, List.mem_cons_of_mem _ hz, hze⟩

theorem nodup_ids_dedupLast : ∀ events : List Event, ((dedupLast events).map Event.id).Nodup
  | [] => List.nodup_nil
  | x :: rest => by
    rw [dedupLast]
    split
    · exact nodup_ids_dedupLast rest
    · next hlast =>
        refine List.nodup_cons.mpr ⟨fun hmem => hlast ?_, nodup_ids_dedupLast rest⟩
        obtain ⟨y, hy, hid⟩ := List.mem_map.mp hmem
        exact List.any_eq_true.mpr ⟨y, mem_of_mem_dedupLast hy, decide_eq_true hid⟩

variable {events all : List Event} {H : Bytes → Digest}

theorem mem_dedupLast (hids : IdsAgree events) {e : Event} : e ∈ dedupLast events ↔ e ∈ events := by
  refine ⟨mem_of_mem_dedupLast, fun he => ?_⟩
  obtain ⟨x, hx, hid⟩ := exists_mem_dedupLast he
  rwa [← hids x (mem_of_mem_dedupLast hx) e he hid]

/-- The strict order by `(created_at, id)`. -/
def Event.Lt (a b : Event) : Prop :=
  a.createdAt < b.createdAt ∨ a.createdAt = b.createdAt ∧ a.id < b.id

/-- The events of a window, each once, in order. -/
structure InOrder (events all : List Event) : Prop where
  sorted : all.Pairwise Event.Lt
  mem : ∀ e, e ∈ all ↔ e ∈ events

/-- The map hands out its values in any order; sorting them gives one list. -/
theorem ordered_of_perm {values : List Event} (h : values.Perm (dedupLast events)) :
    values.insertionSort Event.Le = ordered events := by
  have hperm : (values.insertionSort Event.Le).Perm (ordered events) :=
    ((List.perm_insertionSort _ _).trans h).trans (List.perm_insertionSort _ _).symm
  refine hperm.eq_of_pairwise ?_ (List.pairwise_insertionSort _ _)
    (List.pairwise_insertionSort _ _)
  intro a b ha hb hab hba
  have hmem : ∀ {x}, x ∈ ordered events → x ∈ dedupLast events := fun hx =>
    (List.perm_insertionSort _ _).mem_iff.mp hx
  refine List.inj_on_of_nodup_map (nodup_ids_dedupLast events) (hmem (hperm.mem_iff.mp ha))
    (hmem hb) ?_
  rcases hab with hab | ⟨hat, hab⟩ <;> rcases hba with hba | ⟨hbt, hba⟩
  · omega
  · omega
  · omega
  · exact String.le_antisymm hab hba

theorem inOrder_ordered (hids : IdsAgree events) : InOrder events (ordered events) := by
  have hperm : (ordered events).Perm (dedupLast events) := List.perm_insertionSort _ _
  have hdistinct : (ordered events).Pairwise fun a b => a.id ≠ b.id :=
    List.pairwise_map.mp ((hperm.map Event.id).nodup_iff.mpr (nodup_ids_dedupLast events))
  refine ⟨?_, fun e => hperm.mem_iff.trans (mem_dedupLast hids)⟩
  refine (List.pairwise_insertionSort Event.Le (dedupLast events)).imp₂ ?_ hdistinct
  rintro a b (hlt | ⟨heq, hid⟩) hne
  · exact .inl hlt
  · exact .inr ⟨heq, String.not_le.mp fun hge => hne (String.le_antisymm hid hge)⟩

/-! ## The package -/

/-- The events of the earliest second. -/
def firstSecond (all : List Event) : List Event := all.takeWhile fun e => e.createdAt = minTs all

theorem createdAt_of_mem_firstSecond {e : Event} (h : e ∈ firstSecond all) :
    e.createdAt = minTs all := by
  have hp := List.mem_takeWhile_imp (p := fun x : Event => decide (x.createdAt = minTs all)) h
  exact of_decide_eq_true hp

theorem splitsAt_firstSecond (hsorted : all.Pairwise fun a b => a.createdAt ≤ b.createdAt) :
    SplitsAt all (firstSecond all).length := by
  have hsplit : all = firstSecond all ++ all.dropWhile fun e => e.createdAt = minTs all :=
    List.takeWhile_append_dropWhile.symm
  intro a ha b hb
  have htake : all.take (firstSecond all).length = firstSecond all := by
    have := congrArg (List.take (firstSecond all).length) hsplit
    rwa [List.take_left] at this
  have hdrop : all.drop (firstSecond all).length =
      all.dropWhile fun e => e.createdAt = minTs all := by
    have := congrArg (List.drop (firstSecond all).length) hsplit
    rwa [List.drop_left] at this
  rw [htake] at ha
  rw [hdrop] at hb
  have haeq : a.createdAt = minTs all := createdAt_of_mem_firstSecond ha
  -- the first event after it is later, and the rest is not earlier than that one
  cases hrest : all.dropWhile fun e => e.createdAt = minTs all with
  | nil =>
    rw [hrest] at hb
    cases hb
  | cons next rest =>
    have hnext : next.createdAt ≠ minTs all := by
      have hne : (all.dropWhile fun e => e.createdAt = minTs all) ≠ [] := by
        rw [hrest]
        exact List.cons_ne_nil _ _
      simpa [hrest] using
        List.head_dropWhile_not (fun e : Event => decide (e.createdAt = minTs all)) hne
    have hnextmin : minTs all ≤ next.createdAt := by
      refine minTs_le ?_
      rw [hsplit, hrest]
      simp
    have hnb : next.createdAt ≤ b.createdAt := by
      rw [hsplit, hrest] at hsorted
      rw [hrest] at hb
      rcases List.mem_cons.mp hb with rfl | hb
      · exact Nat.le_refl _
      · exact (List.pairwise_cons.mp (List.pairwise_append.mp hsorted).2.1).1 b hb
    omega

/-- A whole-second start that is not empty has the first second in it. -/
theorem firstSecond_le_of_splitsAt {n : Nat} (hpos : 0 < n) (hsplit : SplitsAt all n) :
    (firstSecond all).length ≤ n := by
  refine Nat.le_of_not_lt fun hlt => ?_
  have hprefix : firstSecond all <+: all := List.takeWhile_prefix _
  have hat : ∀ i (hi : i < (firstSecond all).length), ∃ e ∈ firstSecond all, all[i]? = some e :=
    fun i hi => ⟨(firstSecond all)[i], List.getElem_mem hi,
      List.prefix_iff_getElem?.mp hprefix i hi⟩
  obtain ⟨a, ha, ha'⟩ := hat 0 (by omega)
  obtain ⟨b, hb, hb'⟩ := hat n hlt
  have haeq : a.createdAt = minTs all := createdAt_of_mem_firstSecond ha
  have hbeq : b.createdAt = minTs all := createdAt_of_mem_firstSecond hb
  have htake : a ∈ all.take n := by
    refine List.mem_of_getElem? (i := 0) ?_
    rw [List.getElem?_take_of_lt hpos, ha']
  have hdrop : b ∈ all.drop n := by
    refine List.mem_of_getElem? (i := 0) ?_
    rw [List.getElem?_drop, Nat.add_zero, hb']
  have := hsplit a htake b hdrop
  omega

theorem length_firstSecond_pos (hne : all ≠ [])
    (hsorted : all.Pairwise fun a b => a.createdAt ≤ b.createdAt) :
    0 < (firstSecond all).length := by
  obtain ⟨x, hx, hmin⟩ := exists_minTs hne
  cases all with
  | nil => cases hx
  | cons first rest =>
    have hle : first.createdAt ≤ x.createdAt := by
      rcases List.mem_cons.mp hx with rfl | hx
      · exact Nat.le_refl _
      · exact (List.pairwise_cons.mp hsorted).1 x hx
    have hge : minTs (first :: rest) ≤ first.createdAt := minTs_le (List.mem_cons_self)
    rw [firstSecond, List.takeWhile_cons_of_pos (by simpa using by omega)]
    exact Nat.succ_pos _

/-- The cut is at the start exactly when the first second is too large. -/
theorem LongestFit.eq_zero_iff {max n : Nat} (hne : all ≠ [])
    (hsorted : all.Pairwise fun a b => a.createdAt ≤ b.createdAt)
    (h : LongestFit all (some max) n) : n = 0 ↔ max < contentSize (firstSecond all) := by
  have hprefix : firstSecond all <+: all := List.takeWhile_prefix _
  have htake : all.take (firstSecond all).length = firstSecond all :=
    (List.prefix_iff_eq_take.mp hprefix).symm
  have hpos := length_firstSecond_pos hne hsorted
  constructor
  · rintro rfl
    refine Nat.lt_of_not_le fun hle => ?_
    have := h.longest _ hprefix.length_le (splitsAt_firstSecond hsorted) (by
      intro max' hmax
      cases hmax
      rwa [htake])
    omega
  · intro hbig
    by_contra hn
    have hle := firstSecond_le_of_splitsAt (Nat.pos_of_ne_zero hn) h.whole
    have hmono := contentSize_take_mono all hle
    have hfits := h.fits max rfl
    rw [htake] at hmono
    omega

/-! ### The ids -/

theorem hexVal_of_isAsciiHexdigit {c : Char} (h : isAsciiHexdigit c = true) :
    c.toNat < 128 ∧ (hexVal (UInt8.ofNat c.toNat)).isSome = true := by
  have hrange : 48 ≤ c.toNat ∧ c.toNat ≤ 57 ∨ 97 ≤ c.toNat ∧ c.toNat ≤ 102 ∨
      65 ≤ c.toNat ∧ c.toNat ≤ 70 := by
    simpa [isAsciiHexdigit, Char.le_def, UInt32.le_iff_toNat_le, or_assoc] using h
  have hlt : c.toNat < 128 := by omega
  have hbyte : (UInt8.ofNat c.toNat).toNat = c.toNat :=
    UInt8.toNat_ofNat_of_lt (Nat.lt_trans hlt (by decide))
  refine ⟨hlt, ?_⟩
  simp only [hexVal, hbyte]
  rcases hrange with h | h | h
  · rw [if_pos h]
    rfl
  · rw [if_neg (by omega), if_pos h]
    rfl
  · rw [if_neg (by omega), if_neg (by omega), if_pos h]
    rfl

theorem exists_hexDecodeBytes : ∀ {cs : Bytes} {k : Nat}, cs.length = 2 * k →
    (∀ c ∈ cs, (hexVal c).isSome = true) → ∃ bs, hexDecodeBytes cs = some bs ∧ bs.length = k
  | [], k, hlen, _ => ⟨[], rfl, by simp only [List.length_nil] at hlen ⊢; omega⟩
  | [c], k, hlen, _ => by
    simp only [List.length_singleton] at hlen
    omega
  | hi :: lo :: rest, k, hlen, hall => by
    simp only [List.length_cons] at hlen
    obtain ⟨bs, hbs, hbslen⟩ := @exists_hexDecodeBytes rest (k - 1) (by omega)
      fun c hc => hall c (List.mem_cons_of_mem _ (List.mem_cons_of_mem _ hc))
    obtain ⟨h, hh⟩ := Option.isSome_iff_exists.mp (hall hi (by simp))
    obtain ⟨l, hl⟩ := Option.isSome_iff_exists.mp (hall lo (by simp))
    refine ⟨UInt8.ofNat (16 * h + l) :: bs, ?_, ?_⟩
    · rw [hexDecodeBytes, hh, hl, hbs]
    · simp only [List.length_cons, hbslen]
      omega

/-- An id that passes the check decodes to 32 bytes. -/
theorem exists_hexDecode_of_validId {id : String} (h : validId id = true) :
    ∃ d : Digest, hexDecode id = some d.bytes := by
  simp only [validId, Bool.and_eq_true, decide_eq_true_eq, List.all_eq_true] at h
  obtain ⟨hlen, hall⟩ := h
  have hstr : str id = id.toList.map fun c => UInt8.ofNat c.toNat := by
    conv_lhs => rw [← String.ofList_toList (s := id), str_ofList]
    rw [List.map_eq_flatMap]
    refine List.flatMap_congr fun c hc => ?_
    exact utf8EncodeChar_of_lt (hexVal_of_isAsciiHexdigit (hall c hc)).1
  obtain ⟨bs, hbs, hbslen⟩ := @exists_hexDecodeBytes (str id) 32
    (by rw [hstr, List.length_map, hlen]) fun c hc => by
      rw [hstr] at hc
      obtain ⟨x, hx, rfl⟩ := List.mem_map.mp hc
      exact (hexVal_of_isAsciiHexdigit (hall x hx)).2
  exact ⟨⟨bs, hbslen⟩, hbs⟩

theorem exists_ids : ∀ {kept : List Event}, (∀ e ∈ kept, validId e.id = true) →
    ∃ ids : List Digest, kept.map (fun e => hexDecode e.id) = ids.map fun d => some d.bytes
  | [], _ => ⟨[], rfl⟩
  | e :: rest, h => by
    obtain ⟨d, hd⟩ := exists_hexDecode_of_validId (h e (List.mem_cons_self))
    obtain ⟨ids, hids⟩ := exists_ids fun x hx => h x (List.mem_cons_of_mem _ hx)
    exact ⟨d :: ids, by rw [List.map_cons, List.map_cons, hd, hids]⟩

/-- The root of a package is the anchor's root over the decoded ids. -/
theorem rootOf_eq {kept : List Event} {ids : List Digest} (hne : kept ≠ [])
    (hids : kept.map (fun e => hexDecode e.id) = ids.map fun d => some d.bytes) :
    TranscriptAnchor.merkleRoot H (ids.map (TranscriptAnchor.leafHash H)) =
      some (rootOf H kept) := by
  have hleaves : kept.map (fun e => leafHash H ((hexDecode e.id).getD []) []) =
      ids.map (TranscriptAnchor.leafHash H) := by
    have := congrArg (List.map fun o : Option Bytes => leafHash H (o.getD []) []) hids
    simp only [List.map_map, Function.comp_def, Option.getD_some, leafHash, List.append_nil] at this
    simp only [leafHash, List.append_nil]
    exact this
  have hne' : ids.map (TranscriptAnchor.leafHash H) ≠ [] := by
    rw [← hleaves]
    simpa using hne
  rw [TranscriptAnchor.merkleRoot_eq hne', rootOf, hleaves]

/-! ### The result -/

/-- The package is over `kept`: its root is the anchor over the ids, and the rest are figures
of the list. -/
structure Commits (H : Bytes → Digest) (kept : List Event) (pkg : AnchorPackage) : Prop where
  root : ∃ (ids : List Digest) (root : Digest),
    kept.map (fun e => hexDecode e.id) = ids.map (fun d => some d.bytes) ∧
    TranscriptAnchor.merkleRoot H (ids.map (TranscriptAnchor.leafHash H)) = some root ∧
    pkg.rootHex = hexEncode root.bytes ∧ pkg.rootB64 = String.ofList (base64Chars root.bytes)
  format : pkg.format = formatTag
  count : pkg.count = kept.length
  sizeBytes : pkg.sizeBytes = contentSize kept
  first : kept.head?.map (fun e => (e.createdAt, e.id)) = some (pkg.fromTs, pkg.firstId)
  last : kept.getLast?.map Event.id = some pkg.lastId

theorem commits_packageOf {kept : List Event} {truncated : Bool} {claimedTo : Option Nat}
    (hne : kept ≠ []) (hvalid : ∀ e ∈ kept, validId e.id = true) :
    Commits H kept (packageOf H events kept truncated claimedTo) := by
  obtain ⟨ids, hids⟩ := exists_ids hvalid
  refine ⟨⟨ids, rootOf H kept, hids, rootOf_eq hne hids, rfl, rfl⟩, rfl, rfl, rfl, ?_, ?_⟩
  · rw [packageOf, List.head?_eq_some_head hne]
    rfl
  · rw [packageOf, List.getLast?_eq_some_getLast hne]
    rfl

theorem min?_congr {l l' : List Nat} (h : ∀ x, x ∈ l ↔ x ∈ l') : l.min? = l'.min? := by
  cases hl : l.min? with
  | none =>
    rw [List.min?_eq_none_iff] at hl
    subst hl
    have : l' = [] := List.eq_nil_iff_forall_not_mem.mpr fun x hx => by simpa using (h x).mpr hx
    rw [this]
    rfl
  | some m =>
    rw [List.min?_eq_some_iff] at hl
    symm
    rw [List.min?_eq_some_iff]
    exact ⟨(h m).mp hl.1, fun x hx => hl.2 x ((h x).mpr hx)⟩

/-- The order and the repetitions of the input do not matter. -/
theorem anchorPackage_congr {events' : List Event} (hids : IdsAgree events)
    (hsame : ∀ e, e ∈ events' ↔ e ∈ events) (maxSize claimedTo : Option Nat)
    (hvalid : ∀ e ∈ events, validId e.id = true) :
    anchorPackage H events' maxSize claimedTo = anchorPackage H events maxSize claimedTo := by
  have hids' : IdsAgree events' := fun a ha b hb =>
    hids a ((hsame a).mp ha) b ((hsame b).mp hb)
  have hordered : ordered events' = ordered events := by
    refine ordered_of_perm ?_
    refine (List.perm_ext_iff_of_nodup (List.Nodup.of_map _ (nodup_ids_dedupLast _))
      (List.Nodup.of_map _ (nodup_ids_dedupLast _))).mpr fun e => ?_
    rw [mem_dedupLast hids', mem_dedupLast hids, hsame]
  have hnil : events' = [] ↔ events = [] := by
    rw [List.eq_nil_iff_forall_not_mem, List.eq_nil_iff_forall_not_mem]
    exact forall_congr' fun e => not_congr (hsame e)
  have hfind : ∀ {l : List Event}, (∀ e, e ∈ l ↔ e ∈ events) →
      (l.find? fun e => !validId e.id) = none := fun hl => by
    rw [List.find?_eq_none]
    intro e he
    simp [hvalid e ((hl e).mp he)]
  have hpkg : ∀ kept truncated, packageOf H events' kept truncated claimedTo =
      packageOf H events kept truncated claimedTo := by
    intro kept truncated
    have hmin : ((excluded events' kept).map Event.createdAt).min? =
        ((excluded events kept).map Event.createdAt).min? := by
      refine min?_congr fun x => ?_
      simp only [excluded, List.mem_map, List.mem_filter, hsame]
    simp only [packageOf, boundOf, hmin]
  simp only [anchorPackage, hnil, hfind hsame, hfind fun _ => Iff.rfl, hordered, hpkg]

/-- The bound is the one number of the package that is computed; it stays a `u64`. -/
theorem boundOf_lt {cut : Nat} (hids : IdsAgree events) (hmem : ∀ e, e ∈ all ↔ e ∈ events)
    (hsplit : SplitsAt all cut) (hmax : ∀ e ∈ events, e.createdAt < 2 ^ 64 - 1)
    (claimedTo : Option Nat) (hclaimed : ∀ c, claimedTo = some c → c < 2 ^ 64) :
    boundOf events (all.take cut) (decide (cut < all.length)) claimedTo < 2 ^ 64 := by
  by_cases htrunc : cut < all.length
  · obtain ⟨⟨x, hx, hxb⟩, -⟩ := exists_boundOf_truncated hids hmem hsplit htrunc claimedTo
    have := hmax x ((hmem x).mp (List.mem_of_mem_drop hx))
    rw [decide_eq_true htrunc, hxb]
    omega
  · rw [decide_eq_false htrunc]
    have hlast : (((all.take cut).getLast?.map fun e => e.createdAt + 1).getD 0) < 2 ^ 64 := by
      cases hl : (all.take cut).getLast? with
      | none => simp
      | some e =>
        have := hmax e ((hmem e).mp (List.mem_of_mem_take (List.mem_of_getLast? hl)))
        simp only [Option.map_some, Option.getD_some]
        omega
    have hto : claimedTo.getD 0 < 2 ^ 64 := by
      cases claimedTo with
      | none => decide
      | some c => exact hclaimed c rfl
    simp only [boundOf, Bool.false_eq_true, if_false]
    omega

/-- **Anchor package.** For a window with hex ids that name its events, the package is refused
because its first second is too large, or it is over the longest start of the events in order
that ends with a second and fits; its bound lies after what it holds and not after what it
leaves out; and the order and the repetitions of the input do not matter. -/
theorem anchorPackage_longest (H : Bytes → Digest) {events : List Event} (hne : events ≠ [])
    (hvalid : ∀ e ∈ events, validId e.id = true) (hids : IdsAgree events)
    (hmax : ∀ e ∈ events, e.createdAt < 2 ^ 64 - 1) (maxSize claimedTo : Option Nat)
    (hclaimed : ∀ c, claimedTo = some c → c < 2 ^ 64) :
    (∃ all, InOrder events all ∧
      ((∃ max, maxSize = some max ∧ max < contentSize (firstSecond all) ∧
          anchorPackage H events maxSize claimedTo = .error .firstSecondTooLarge) ∨
        ∃ n pkg, 0 < n ∧ LongestFit all maxSize n ∧
          anchorPackage H events maxSize claimedTo = .ok (pkg, all.take n) ∧
          Commits H (all.take n) pkg ∧ pkg.truncated = decide (n < all.length) ∧
          (∀ e ∈ all.take n, e.createdAt < pkg.toTs) ∧
          (∀ e ∈ all.drop n, pkg.toTs ≤ e.createdAt) ∧ pkg.toTs < 2 ^ 64)) ∧
    ∀ events', (∀ e, e ∈ events' ↔ e ∈ events) →
      anchorPackage H events' maxSize claimedTo = anchorPackage H events maxSize claimedTo := by
  refine ⟨⟨ordered events, inOrder_ordered hids, ?_⟩, fun events' hsame =>
    anchorPackage_congr hids hsame maxSize claimedTo hvalid⟩
  have hmem := (inOrder_ordered hids).mem
  have hsorted := ordered_sorted events
  have hall : ordered events ≠ [] := by
    obtain ⟨e, he⟩ := List.exists_mem_of_ne_nil _ hne
    exact List.ne_nil_of_mem ((hmem e).mpr he)
  have hcut := cutAt_longest hsorted maxSize
  have hfind : (events.find? fun e => !validId e.id) = none := by
    rw [List.find?_eq_none]
    intro e he
    simp [hvalid e he]
  simp only [anchorPackage, if_neg hne, hfind]
  generalize cutAt (ordered events) maxSize = n at hcut ⊢
  rcases Nat.eq_zero_or_pos n with rfl | hpos
  · -- no whole second fits
    have hlen : 0 < (ordered events).length := List.length_pos_iff.mpr hall
    rw [if_pos ⟨hlen, rfl⟩]
    cases maxSize with
    | none =>
      have := hcut.longest _ (Nat.le_refl _) (by simp [SplitsAt]) (by simp [Fits])
      omega
    | some max => exact .inl ⟨max, rfl, (hcut.eq_zero_iff hall hsorted).mp rfl, rfl⟩
  · rw [if_neg (by omega)]
    have hkept : (ordered events).take n ≠ [] := by
      rw [← List.length_pos_iff, List.length_take]
      exact Nat.lt_min.mpr ⟨hpos, List.length_pos_iff.mpr hall⟩
    have hbetween := boundOf_between hids hmem hsorted hcut.whole claimedTo
    refine .inr ⟨n, _, hpos, hcut, rfl, commits_packageOf hkept fun e he => ?_, rfl,
      hbetween.1, hbetween.2, boundOf_lt hids hmem hcut.whole hmax claimedTo hclaimed⟩
    exact hvalid e ((hmem e).mp (List.mem_of_mem_take he))

/-- Three empty messages fit into nothing. -/
theorem anchorPackage_longest_burst : ∃ all, InOrder (burst 3) all ∧
    ((∃ max, some 0 = some max ∧ max < contentSize (firstSecond all) ∧
        anchorPackage sha256 (burst 3) (some 0) none = .error .firstSecondTooLarge) ∨
      ∃ n pkg, 0 < n ∧ LongestFit all (some 0) n ∧
        anchorPackage sha256 (burst 3) (some 0) none = .ok (pkg, all.take n) ∧
        Commits sha256 (all.take n) pkg ∧ pkg.truncated = decide (n < all.length) ∧
        (∀ e ∈ all.take n, e.createdAt < pkg.toTs) ∧
        (∀ e ∈ all.drop n, pkg.toTs ≤ e.createdAt) ∧ pkg.toTs < 2 ^ 64) :=
  (anchorPackage_longest sha256 (by decide) burst_valid (.of_nodup (burst_ids (by decide)))
    (fun e he => by rw [burst_createdAt he]; decide) (some 0) none nofun).1

end LayerSdk.Checkpoint

import LayerSdk.SeatRegistry
import LayerSdk.Plus
import Mathlib.Data.Finset.Dedup
import Mathlib.Data.Finset.Lattice.Lemmas

/-!
# Relay admission

The relay fills its allowlist by paging through the contract's
`ListActiveSeats`. The contract cuts its page of 30 records first and drops
the weightless members then; the relay takes a page with fewer than 30
entries for the last one. One weightless member in a page therefore hides
every seat after that page.

What the relay sees of a list of seats is `visible`; `mem_visible` says which
positions those are, and `refresh_admits_active_iff` compares that with the
seats it should admit.
-/

namespace LayerSdk.Seats

/-! ## The contract's query -/

def defaultLimit : Nat := 30
def maxLimit : Nat := 100

/-- The records that still hold weight; a failed query fails the whole. -/
def activeOnly (querier : Querier) (config : Config) :
    List SeatRecord → Except StdError (List SeatRecord)
  | [] => .ok []
  | seat :: rest => do
    let weight ← memberWeight querier config seat.memberAddr
    let rest ← activeOnly querier config rest
    .ok (if 0 < weight then seat :: rest else rest)

/-- `SEATS.range(start_after, None, Ascending)`. -/
def seatsAfter (s : State) : Option UInt8 → List SeatRecord
  | none => s.seats.toList.map Prod.snd
  | some i => (s.seats.toList.filter fun e => i < e.1).map Prod.snd

def listActiveSeats (querier : Querier) (s : State) (startAfter : Option UInt8)
    (limit : Option Nat) : Except StdError (List SeatRecord) :=
  let limit := min (limit.getD defaultLimit) maxLimit
  activeOnly querier s.config ((seatsAfter s startAfter).take limit)

/-! ## The relay -/

/-- The fields of a seat's JSON object that the relay reads. -/
structure SeatJson where
  seatIndex : Option Nat
  npub : Option String
deriving DecidableEq, Repr

def SeatRecord.toJson (r : SeatRecord) : SeatJson :=
  ⟨some r.seatIndex.toNat, some (String.ofList (base64Chars r.npub))⟩

/-- The npub of a seat, if it has 32 bytes. -/
def SeatJson.npubHex (seat : SeatJson) : Option String := do
  let b64 ← seat.npub
  let raw ← base64Decode b64.toList
  if raw.length = 32 then some (hexEncode raw) else none

/-- What the relay keeps of a page: the npubs, the last seat index and the raw
number of seats. -/
structure SeatPage where
  npubs : Finset String
  lastSeat : Option UInt8
  rawLen : Nat

def parseListActiveSeats (seats : List SeatJson) : SeatPage where
  npubs := (seats.filterMap SeatJson.npubHex).toFinset
  lastSeat := (seats.filterMap SeatJson.seatIndex).getLast?.map UInt8.ofNat
  rawLen := seats.length

/-- The loop of `refresh_once_attestation`, for a number of pages. -/
def refreshLoop (ask : Option UInt8 → Except String (List SeatJson)) :
    Nat → Option UInt8 → Finset String → Option (Except String (Finset String))
  | 0, _, _ => none
  | pages + 1, startAfter, npubs =>
    match ask startAfter with
    | .error e => some (.error e)
    | .ok body =>
      let page := parseListActiveSeats body
      if page.rawLen < 30 then some (.ok (npubs ∪ page.npubs))
      else
        match page.lastSeat with
        | none => some (.error "attestation page full but last seat_index missing")
        | some last => refreshLoop ask pages (some last) (npubs ∪ page.npubs)

/-- `{"list_active_seats":{"start_after":…,"limit":30}}` over the chain's API. -/
def askSeats (querier : Querier) (s : State) (startAfter : Option UInt8) :
    Except String (List SeatJson) :=
  match listActiveSeats querier s startAfter (some 30) with
  | .ok seats => .ok (seats.map SeatRecord.toJson)
  | .error e => .error e.display

def refreshOnceAttestation (querier : Querier) (s : State) (pages : Nat) :
    Option (Except String (Finset String)) :=
  refreshLoop (askSeats querier s) pages none ∅

/-! ## What a short page hides

A list is read in pages of `n`; of each page only the elements with `p` come
back, and the reader stops at the first page that comes back short. -/

section Visible

variable {α : Type} {p : α → Bool} {n : Nat}

def visible (n : Nat) (p : α → Bool) (l : List α) : List α :=
  if 0 < n ∧ n ≤ l.length ∧ (l.take n).all p = true then
    l.take n ++ visible n p (l.drop n)
  else (l.take n).filter p
termination_by l.length
decreasing_by
  rw [List.length_drop]
  omega

theorem mem_take_iff {l : List α} {a : α} : a ∈ l.take n ↔ ∃ j, j < n ∧ l[j]? = some a := by
  rw [List.mem_iff_getElem?]
  simp only [List.getElem?_take, Option.ite_none_right_eq_some]

/-- An element is seen if it passes and all the pages before its own do. -/
theorem mem_visible (hn : 0 < n) (l : List α) (a : α) :
    a ∈ visible n p l ↔ ∃ j, l[j]? = some a ∧ p a = true ∧
      ∀ k, k < n * (j / n) → ∀ b, l[k]? = some b → p b = true := by
  fun_induction visible n p l with
  | case1 l hfull ih =>
    obtain ⟨-, hlen, hall⟩ := hfull
    have hpass : ∀ k < n, ∀ b, l[k]? = some b → p b = true := fun k hk b hb =>
      List.all_eq_true.mp hall b (mem_take_iff.mpr ⟨k, hk, hb⟩)
    rw [List.mem_append, ih, mem_take_iff]
    constructor
    · rintro (⟨j, hj, ha⟩ | ⟨j, ha, hpa, hbefore⟩)
      · refine ⟨j, ha, hpass j hj a ha, fun k hk => ?_⟩
        rw [Nat.div_eq_of_lt hj] at hk
        omega
      · rw [List.getElem?_drop] at ha
        refine ⟨n + j, ha, hpa, fun k hk b hb => ?_⟩
        rcases Nat.lt_or_ge k n with hkn | hkn
        · exact hpass k hkn b hb
        · rw [Nat.add_div_left j hn, Nat.mul_add_one] at hk
          refine hbefore (k - n) (by omega) b ?_
          rw [List.getElem?_drop, Nat.add_sub_cancel' hkn]
          exact hb
    · rintro ⟨j, ha, hpa, hbefore⟩
      rcases Nat.lt_or_ge j n with hj | hj
      · exact .inl ⟨j, hj, ha⟩
      · obtain ⟨i, rfl⟩ := Nat.exists_eq_add_of_le hj
        refine .inr ⟨i, by rw [List.getElem?_drop]; exact ha, hpa, fun k hk b hb => ?_⟩
        rw [List.getElem?_drop] at hb
        refine hbefore (n + k) ?_ b hb
        rw [Nat.add_div_left i hn, Nat.mul_add_one]
        omega
  | case2 l hshort =>
    rw [List.mem_filter, mem_take_iff]
    constructor
    · rintro ⟨⟨j, hj, ha⟩, hpa⟩
      refine ⟨j, ha, hpa, fun k hk => ?_⟩
      rw [Nat.div_eq_of_lt hj] at hk
      omega
    · rintro ⟨j, ha, hpa, hbefore⟩
      refine ⟨⟨j, ?_, ha⟩, hpa⟩
      -- past the first page, that page would have been full
      by_contra hj
      have hdiv : 0 < j / n := Nat.div_pos (by omega) hn
      have hle : n * 1 ≤ n * (j / n) := Nat.mul_le_mul_left n hdiv
      refine hshort ⟨hn, ?_, List.all_eq_true.mpr fun b hb => ?_⟩
      · have := (List.getElem?_eq_some_iff.mp ha).1
        omega
      · obtain ⟨k, hk, hb⟩ := mem_take_iff.mp hb
        exact hbefore k (by omega) b hb

end Visible

/-! ## The refresh loop -/

/-- The records in the order of the range. -/
def seatList (s : State) : List SeatRecord := s.seats.toList.map Prod.snd

def holdsWeight (weight : String → Nat) (r : SeatRecord) : Bool := 0 < weight r.memberAddr

/-- The 32-byte npubs among the records, as the relay writes them. -/
def npubsOf (seats : List SeatRecord) : Finset String :=
  ((seats.filter fun r => r.npub.length = 32).map fun r => hexEncode r.npub).toFinset

/-- What the relay should admit. -/
def activeNpubs (weight : String → Nat) (s : State) : Finset String :=
  npubsOf ((seatList s).filter (holdsWeight weight))

theorem npubHex_toJson (r : SeatRecord) :
    r.toJson.npubHex = if r.npub.length = 32 then some (hexEncode r.npub) else none := by
  simp [SeatJson.npubHex, SeatRecord.toJson, base64Decode_base64Chars]

theorem npubs_parse (seats : List SeatRecord) :
    (parseListActiveSeats (seats.map SeatRecord.toJson)).npubs = npubsOf seats := by
  ext x
  simp [parseListActiveSeats, npubsOf, npubHex_toJson, and_assoc]

theorem lastSeat_parse (seats : List SeatRecord) :
    (parseListActiveSeats (seats.map SeatRecord.toJson)).lastSeat =
      seats.getLast?.map SeatRecord.seatIndex := by
  have hidx : (seats.map SeatRecord.toJson).filterMap SeatJson.seatIndex =
      seats.map fun r => r.seatIndex.toNat := by
    simp [List.filterMap_map, Function.comp_def, SeatRecord.toJson]
  simp [parseListActiveSeats, hidx, List.getLast?_map, Function.comp_def]

theorem rawLen_parse (seats : List SeatRecord) :
    (parseListActiveSeats (seats.map SeatRecord.toJson)).rawLen = seats.length := by
  simp [parseListActiveSeats]

theorem npubsOf_append (l l' : List SeatRecord) : npubsOf (l ++ l') = npubsOf l ∪ npubsOf l' := by
  simp [npubsOf]

theorem activeOnly_eq {querier : Querier} {config : Config} {weight : String → Nat}
    (hw : ∀ addr, memberWeight querier config addr = .ok (weight addr)) :
    ∀ l, activeOnly querier config l = .ok (l.filter (holdsWeight weight))
  | [] => rfl
  | r :: rest => by
    rw [activeOnly, hw, activeOnly_eq hw rest, List.filter_cons]
    simp only [holdsWeight, decide_eq_true_eq]
    rfl

theorem askSeats_eq {querier : Querier} {s : State} {weight : String → Nat}
    (hw : ∀ addr, memberWeight querier s.config addr = .ok (weight addr))
    (startAfter : Option UInt8) :
    askSeats querier s startAfter = .ok ((((seatsAfter s startAfter).take 30).filter
      (holdsWeight weight)).map SeatRecord.toJson) := by
  rw [askSeats, listActiveSeats, activeOnly_eq hw]
  rfl

/-- Behind an entry of an ascending list come the entries with larger keys. -/
theorem filter_after {l : List (UInt8 × SeatRecord)} (hasc : OrdMap.Ascending l) {j : Nat}
    {i : UInt8} {r : SeatRecord} (h : l[j]? = some (i, r)) :
    l.filter (fun e => i < e.1) = l.drop (j + 1) := by
  obtain ⟨hj, heq⟩ := List.getElem?_eq_some_iff.mp h
  have hsplit : l = l.take j ++ (i, r) :: l.drop (j + 1) := by
    rw [← heq, List.cons_getElem_drop_succ, List.take_append_drop]
  have hasc' := hasc
  rw [OrdMap.Ascending, hsplit, List.pairwise_append, List.pairwise_cons] at hasc'
  obtain ⟨-, ⟨hafter, -⟩, hbefore⟩ := hasc'
  have hfront : (l.take j).filter (fun e => i < e.1) = [] :=
    List.filter_eq_nil_iff.mpr fun e he => by
      have hlt : e.1 < i :=
        compareOfLessAndEq_eq_lt.mp (hbefore e he (i, r) (List.mem_cons_self))
      simpa using UInt8.le_of_lt hlt
  have hback : (l.drop (j + 1)).filter (fun e => i < e.1) = l.drop (j + 1) :=
    List.filter_eq_self.mpr fun e he => decide_eq_true (compareOfLessAndEq_eq_lt.mp (hafter e he))
  calc l.filter (fun e => i < e.1)
      = (l.take j ++ (i, r) :: l.drop (j + 1)).filter (fun e => i < e.1) := by rw [← hsplit]
    _ = l.drop (j + 1) := by
        rw [List.filter_append, hfront, List.filter_cons, hback]
        simp

theorem seatsAfter_seatIndex {s : State} (hreg : Registry s) {j : Nat} {r : SeatRecord}
    (h : (seatList s)[j]? = some r) :
    seatsAfter s (some r.seatIndex) = (seatList s).drop (j + 1) := by
  rw [seatList, List.getElem?_map, Option.map_eq_some_iff] at h
  obtain ⟨⟨i, r'⟩, he, rfl⟩ := h
  have hget : s.seats[i]? = some r' :=
    Std.ExtTreeMap.mem_toList_iff_getElem?_eq_some.mp (List.mem_of_getElem? he)
  have hi : r'.seatIndex = i := hreg.index i r' hget
  rw [seatsAfter, hi, filter_after (OrdMap.ascending_toList s.seats) he, seatList, List.map_drop]

section Refresh

variable {querier : Querier} {s : State} {weight : String → Nat}

/-- The loop, from any page on. -/
theorem refreshLoop_eq (hreg : Registry s)
    (hw : ∀ addr, memberWeight querier s.config addr = .ok (weight addr)) :
    ∀ (pages m : Nat) (cursor : Option UInt8) (npubs : Finset String),
      seatsAfter s cursor = (seatList s).drop m → (seatList s).length - m < pages →
      refreshLoop (askSeats querier s) pages cursor npubs = some (.ok (npubs ∪
        npubsOf (visible 30 (holdsWeight weight) ((seatList s).drop m))))
  | 0, _, _, _, _, hfuel => absurd hfuel (Nat.not_lt_zero _)
  | pages + 1, m, cursor, npubs, hcursor, hfuel => by
    rw [refreshLoop, askSeats_eq hw, hcursor]
    dsimp only
    rw [rawLen_parse, npubs_parse, lastSeat_parse, visible]
    by_cases hfull : 0 < 30 ∧ 30 ≤ ((seatList s).drop m).length ∧
        (((seatList s).drop m).take 30).all (holdsWeight weight) = true
    · obtain ⟨-, hlen, hall⟩ := hfull
      have hself := List.filter_eq_self.mpr (List.all_eq_true.mp hall)
      have htake : (((seatList s).drop m).take 30).length = 30 := List.length_take_of_le hlen
      have hlt : m + 29 < (seatList s).length := by
        rw [List.length_drop] at hlen
        omega
      have hlast : (((seatList s).drop m).take 30).getLast? = some (seatList s)[m + 29] := by
        rw [List.getLast?_eq_getElem?, htake, List.getElem?_take, if_pos (by decide),
          List.getElem?_drop, List.getElem?_eq_getElem hlt]
      have hcursor' := seatsAfter_seatIndex hreg (List.getElem?_eq_getElem hlt)
      rw [hself, htake, if_neg (Nat.lt_irrefl 30), hlast, if_pos ⟨by decide, hlen, hall⟩,
        npubsOf_append, List.drop_drop]
      dsimp only [Option.map_some]
      rw [refreshLoop_eq hreg hw pages (m + 30) _ _ hcursor' (by omega), Finset.union_assoc]
    · rw [if_neg hfull, if_pos]
      -- a filtered page of 30 would have been full
      by_contra hshort
      have hle := List.length_filter_le (holdsWeight weight) (((seatList s).drop m).take 30)
      have htake := List.length_take_le 30 ((seatList s).drop m)
      have hlen : (((seatList s).drop m).take 30).length = 30 := by omega
      refine hfull ⟨by decide, ?_, List.all_eq_true.mpr ?_⟩
      · rw [List.length_take] at hlen
        omega
      · exact List.length_filter_eq_length_iff.mp (by omega)

theorem refreshOnceAttestation_eq (hreg : Registry s)
    (hw : ∀ addr, memberWeight querier s.config addr = .ok (weight addr)) {pages : Nat}
    (hpages : s.seats.size < pages) :
    refreshOnceAttestation querier s pages =
      some (.ok (npubsOf (visible 30 (holdsWeight weight) (seatList s)))) := by
  have hlen : (seatList s).length = s.seats.size := by
    rw [seatList, List.length_map, Std.ExtTreeMap.length_toList]
  rw [refreshOnceAttestation, refreshLoop_eq hreg hw pages 0 none ∅ rfl (by omega),
    Finset.empty_union, List.drop_zero]

theorem mem_npubsOf {l : List SeatRecord} {x : String} :
    x ∈ npubsOf l ↔ ∃ r ∈ l, r.npub.length = 32 ∧ hexEncode r.npub = x := by
  simp [npubsOf, and_assoc]

/-- The npub tells the position. -/
theorem position_of_npub (hreg : Registry s) {i j : Nat} {r r' : SeatRecord}
    (hi : (seatList s)[i]? = some r) (hj : (seatList s)[j]? = some r') (hnpub : r.npub = r'.npub) :
    i = j := by
  rw [seatList, List.getElem?_map, Option.map_eq_some_iff] at hi hj
  obtain ⟨⟨k, _⟩, hi, rfl⟩ := hi
  obtain ⟨⟨k', _⟩, hj, rfl⟩ := hj
  have hk := Std.ExtTreeMap.mem_toList_iff_getElem?_eq_some.mp (List.mem_of_getElem? hi)
  have hk' := Std.ExtTreeMap.mem_toList_iff_getElem?_eq_some.mp (List.mem_of_getElem? hj)
  have hkey : k = k' := hreg.npub.unique hk hk' (congrArg some hnpub) rfl
  have hnodup := (OrdMap.ascending_toList s.seats).keys_nodup
  have hi' : (s.seats.toList.map Prod.fst)[i]? = some k := by rw [List.getElem?_map, hi]; rfl
  have hj' : (s.seats.toList.map Prod.fst)[j]? = some k' := by rw [List.getElem?_map, hj]; rfl
  have hlt := (List.getElem?_eq_some_iff.mp hi').1
  exact (List.getElem?_inj hlt hnodup).mp (by rw [hi', hj', hkey])

/-- In the order of the seats, the pages of 30 before the one of an active seat
with a usable npub hold active seats only. -/
def PagesBeforeActive (weight : String → Nat) (s : State) : Prop :=
  ∀ (j : Nat) (r : SeatRecord), (seatList s)[j]? = some r → 0 < weight r.memberAddr →
    r.npub.length = 32 →
    ∀ k, k < 30 * (j / 30) → ∀ r' : SeatRecord, (seatList s)[k]? = some r' →
      0 < weight r'.memberAddr

theorem mem_visible_seats {r : SeatRecord} :
    r ∈ visible 30 (holdsWeight weight) (seatList s) ↔
      ∃ j, (seatList s)[j]? = some r ∧ 0 < weight r.memberAddr ∧
        ∀ k, k < 30 * (j / 30) → ∀ r' : SeatRecord, (seatList s)[k]? = some r' →
          0 < weight r'.memberAddr := by
  rw [mem_visible (by decide)]
  simp only [holdsWeight, decide_eq_true_eq]

theorem npubsOf_visible_subset :
    npubsOf (visible 30 (holdsWeight weight) (seatList s)) ⊆ activeNpubs weight s := by
  intro x hx
  obtain ⟨r, hr, hlen, rfl⟩ := mem_npubsOf.mp hx
  obtain ⟨j, hj, hweight, -⟩ := mem_visible_seats.mp hr
  refine mem_npubsOf.mpr ⟨r, ?_, hlen, rfl⟩
  exact List.mem_filter.mpr ⟨List.mem_of_getElem? hj, decide_eq_true hweight⟩

theorem npubsOf_visible_eq_iff (hreg : Registry s) :
    npubsOf (visible 30 (holdsWeight weight) (seatList s)) = activeNpubs weight s ↔
      PagesBeforeActive weight s := by
  constructor
  · intro heq j r hj hweight hlen
    have hmem : hexEncode r.npub ∈ activeNpubs weight s := mem_npubsOf.mpr
      ⟨r, List.mem_filter.mpr ⟨List.mem_of_getElem? hj, decide_eq_true hweight⟩, hlen, rfl⟩
    rw [← heq] at hmem
    obtain ⟨r', hr', -, hhex⟩ := mem_npubsOf.mp hmem
    obtain ⟨j', hj', -, hbefore⟩ := mem_visible_seats.mp hr'
    obtain rfl := position_of_npub hreg hj' hj (hexEncode_inj hhex)
    exact hbefore
  · intro hpages
    refine npubsOf_visible_subset.antisymm fun x hx => ?_
    obtain ⟨r, hr, hlen, rfl⟩ := mem_npubsOf.mp hx
    obtain ⟨hr, hweight⟩ := List.mem_filter.mp hr
    obtain ⟨j, hj⟩ := List.mem_iff_getElem?.mp hr
    have hweight' := of_decide_eq_true hweight
    exact mem_npubsOf.mpr
      ⟨r, mem_visible_seats.mpr ⟨j, hj, hweight', hpages j r hj hweight' hlen⟩, hlen, rfl⟩

end Refresh

/-- **What the relay admits.** In every reachable state and for every membership of
the group, the refresh ends and admits only npubs of seats whose member has weight.
It admits all of them exactly if no weightless seat stands on a page before one of
theirs. -/
theorem refresh_admits_active_iff {api : Api} {msg : InstantiateMsg} {s₀ : State} {resp : Response}
    (hinit : instantiate api msg = .ok (s₀, resp)) (calls : List Call) (querier : Querier)
    (weight : String → Nat)
    (hgroup : ∀ addr, ∃ w, querier.member (run s₀ calls).config.cw4GroupAddr addr = .ok w ∧
      w.getD 0 = weight addr) :
    ∃ npubs, (∀ pages, (run s₀ calls).seats.size < pages →
        refreshOnceAttestation querier (run s₀ calls) pages = some (.ok npubs)) ∧
      npubs ⊆ activeNpubs weight (run s₀ calls) ∧
      (npubs = activeNpubs weight (run s₀ calls) ↔ PagesBeforeActive weight (run s₀ calls)) := by
  have hreg := ((registry_of_instantiate hinit).run calls).1
  have hw : ∀ addr, memberWeight querier (run s₀ calls).config addr = .ok (weight addr) := by
    intro addr
    obtain ⟨w, hw, hweight⟩ := hgroup addr
    rw [memberWeight, hw, ← hweight]
  exact ⟨_, fun pages hpages => refreshOnceAttestation_eq hreg hw hpages, npubsOf_visible_subset,
    npubsOf_visible_eq_iff hreg⟩

/-! ### Thirty-one seats -/

def memberName (i : Nat) : String := String.ofList [Char.ofNat (65 + i)]

def sampleSeat (i : Nat) : SeatRecord :=
  ⟨UInt8.ofNat i, memberName i, [UInt8.ofNat i], [UInt8.ofNat i], none,
    List.replicate 32 (UInt8.ofNat i), 1000⟩

/-- The members claim seats 0 to 30, one each. -/
def thirtyOneCalls : List Call :=
  (List.range 31).map fun i =>
    ⟨⟨plainApi, groupOf ((List.range 31).map memberName), 1000, memberName i, []⟩,
      .updateAttestation (UInt8.ofNat i) [UInt8.ofNat i] [UInt8.ofNat i] none
        (List.replicate 32 (UInt8.ofNat i))⟩

theorem seatList_thirtyOneCalls :
    seatList (run sampleState thirtyOneCalls) = (List.range 31).map sampleSeat := by
  decide +kernel

/-- The members once the one of seat 0 has left. -/
def remainingMembers : List String := ((List.range 31).map memberName).tail

def remainingWeight (addr : String) : Nat := if addr ∈ remainingMembers then 1 else 0

theorem groupOf_weight (addr : String) :
    (if addr ∈ remainingMembers then some 1 else none).getD 0 = remainingWeight addr := by
  unfold remainingWeight
  split <;> rfl

theorem refresh_admits_active_iff_sample :
    ∃ npubs, (∀ pages, (run sampleState thirtyOneCalls).seats.size < pages →
        refreshOnceAttestation (groupOf remainingMembers) (run sampleState thirtyOneCalls) pages =
          some (.ok npubs)) ∧
      npubs ⊆ activeNpubs remainingWeight (run sampleState thirtyOneCalls) ∧
      (npubs = activeNpubs remainingWeight (run sampleState thirtyOneCalls) ↔
        PagesBeforeActive remainingWeight (run sampleState thirtyOneCalls)) :=
  refresh_admits_active_iff instantiate_sampleState thirtyOneCalls (groupOf remainingMembers)
    remainingWeight fun addr => ⟨_, rfl, groupOf_weight addr⟩

/-- Seat 30 is active and the relay does not admit it. -/
theorem refresh_misses_second_page :
    ∃ npubs, refreshOnceAttestation (groupOf remainingMembers) (run sampleState thirtyOneCalls) 32 =
        some (.ok npubs) ∧
      hexEncode (List.replicate 32 30) ∈
        activeNpubs remainingWeight (run sampleState thirtyOneCalls) ∧
      hexEncode (List.replicate 32 30) ∉ npubs := by
  have hreg := ((registry_of_instantiate instantiate_sampleState).run thirtyOneCalls).1
  have hsize : (run sampleState thirtyOneCalls).seats.size < 32 := by decide +kernel
  -- the first page comes back with 29 seats
  have hfirst : visible 30 (holdsWeight remainingWeight) ((List.range 31).map sampleSeat) =
      (((List.range 31).map sampleSeat).take 30).filter (holdsWeight remainingWeight) := by
    rw [visible, if_neg (by decide +kernel)]
  refine ⟨_, refreshOnceAttestation_eq hreg (fun addr => congrArg _ (groupOf_weight addr)) hsize,
    ?_, ?_⟩
  · rw [activeNpubs, seatList_thirtyOneCalls]
    exact mem_npubsOf.mpr ⟨sampleSeat 30, by decide +kernel, rfl, rfl⟩
  · rw [seatList_thirtyOneCalls, hfirst]
    intro hmem
    obtain ⟨r, hr, -, hhex⟩ := mem_npubsOf.mp hmem
    have hother : ∀ r ∈ ((List.range 31).map sampleSeat).take 30,
        r.npub ≠ List.replicate 32 30 := by decide +kernel
    exact hother r (List.mem_filter.mp hr).1 (hexEncode_inj hhex)

end LayerSdk.Seats

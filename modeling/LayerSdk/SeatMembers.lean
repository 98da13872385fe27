import LayerSdk.SeatRegistry

/-!
# Seat attestation: the members of the group

Whether a member may hold a seat is decided by its weight in the group. The
contract asks for the one member, and if the group does not answer that, it
reads the member list page by page. The scan takes a page shorter than it
asked for to be the last one and gives up after sixteen pages, in both cases
with weight 0, which is the weight of somebody who is no member.

`memberWeight_eq` says which part of the list the scan sees for a group of any
size and any page length; that the answer is the group's weight exactly for the
members in that part is `memberWeight_iff`.
-/

namespace LayerSdk.Seats

/-! ## The group -/

/-- The weight of an address in a member list. -/
def weightIn (members : List (String × Nat)) (addr : String) : Nat :=
  ((members.find? fun m => m.1 = addr).map Prod.snd).getD 0

/-- A cw4 group: members by address, pages of at most `cap` of them. -/
structure Group where
  members : List (String × Nat)
  cap : Nat
  answersMember : Bool
  sorted : members.Pairwise fun a b => a.1 < b.1
  cap_pos : 0 < cap

def Group.weight (g : Group) (addr : String) : Nat := weightIn g.members addr

/-- The members from a cursor on. -/
def Group.after (g : Group) : Option String → List (String × Nat)
  | none => g.members
  | some addr => g.members.filter fun m => addr < m.1

def Group.page (g : Group) (startAfter : Option String) (limit : Nat) : List (String × Nat) :=
  (g.after startAfter).take (min limit g.cap)

/-- The queries to `group` are answered by `g`. -/
structure Group.Answers (g : Group) (group : String) (q : Querier) : Prop where
  member : g.answersMember = true → ∀ addr,
    q.member group addr = .ok ((g.members.find? fun m => m.1 = addr).map Prod.snd)
  noMember : g.answersMember = false → ∀ addr, ∃ e, q.member group addr = .error e
  listMembers : ∀ startAfter limit,
    q.listMembers group startAfter limit = .ok (g.page startAfter limit)

/-! ## The scan -/

variable {a : List (String × Nat)} {addr group : String} {g : Group} {q : Querier} {i : UInt8}
  {s : State}

theorem weightIn_append_of_find? {b : List (String × Nat)} {m : String × Nat}
    (h : a.find? (fun m => m.1 = addr) = some m) : weightIn (a ++ b) addr = m.2 := by
  simp [weightIn, List.find?_append, h]

theorem weightIn_append_of_none {b : List (String × Nat)}
    (h : a.find? (fun m => m.1 = addr) = none) : weightIn (a ++ b) addr = weightIn b addr := by
  simp [weightIn, List.find?_append, h]

theorem weightIn_of_none (h : a.find? (fun m => m.1 = addr) = none) : weightIn a addr = 0 := by
  simp [weightIn, h]

/-- The cursor after a page leads to the rest of the list. -/
theorem Group.after_getLast {done rest : List (String × Nat)} {last : String × Nat}
    (h : g.members = done ++ last :: rest) : g.after (some last.1) = rest := by
  have hsorted := g.sorted
  rw [h, List.pairwise_append, List.pairwise_cons] at hsorted
  obtain ⟨-, ⟨hrest, -⟩, hdone⟩ := hsorted
  have hbefore : (done.filter fun m => last.1 < m.1) = [] :=
    List.filter_eq_nil_iff.mpr fun m hm hlt =>
      String.lt_asymm (hdone m hm last (List.mem_cons_self)) (of_decide_eq_true hlt)
  have hafter : (rest.filter fun m => last.1 < m.1) = rest :=
    List.filter_eq_self.mpr fun m hm => decide_eq_true (hrest m hm)
  rw [Group.after, h, List.filter_append, hbefore, List.nil_append,
    List.filter_cons_of_neg (by simp [String.lt_irrefl]), hafter]

/-- How many members some pages of the scan show: full pages go on, a short one ends it. -/
def Group.scanned (g : Group) (pages : Nat) : Nat :=
  if listMembersPageLimit ≤ g.cap then listMembersPageLimit * pages else min pages 1 * g.cap

/-- One page: an empty one is short, too. -/
theorem scanMembers_succ (hq : g.Answers group q) (addr : String) (pages : Nat)
    (startAfter : Option String) : scanMembers q group addr (pages + 1) startAfter =
      ((g.page startAfter listMembersPageLimit).find? fun m => m.1 = addr).elim
        (if (g.page startAfter listMembersPageLimit).length < listMembersPageLimit then .ok 0
          else scanMembers q group addr pages
            ((g.page startAfter listMembersPageLimit).getLast?.map Prod.fst))
        fun m => .ok m.2 := by
  rw [scanMembers, hq.listMembers]
  generalize g.page startAfter listMembersPageLimit = page
  cases page with
  | nil => rfl
  | cons m rest =>
    simp only [bind, Except.bind, if_neg (List.cons_ne_nil m rest)]
    cases (m :: rest).find? fun m => m.1 = addr <;> rfl

/-- A group with shorter pages ends the scan with the first one. -/
theorem scanMembers_of_short (hq : g.Answers group q) (addr : String)
    (hcap : g.cap < listMembersPageLimit) (pages : Nat) :
    scanMembers q group addr (pages + 1) none = .ok (weightIn (g.members.take g.cap) addr) := by
  have hpage : g.page none listMembersPageLimit = g.members.take g.cap := by
    rw [Group.page, Nat.min_eq_right (Nat.le_of_lt hcap)]
    rfl
  have hshort : (g.members.take g.cap).length < listMembersPageLimit := by
    rw [List.length_take]
    omega
  rw [scanMembers_succ hq, hpage, if_pos hshort, weightIn]
  cases (g.members.take g.cap).find? fun m => m.1 = addr <;> rfl

/-- With full pages the scan goes on from where the last page ended. -/
theorem scanMembers_of_full (hq : g.Answers group q) (addr : String)
    (hcap : listMembersPageLimit ≤ g.cap) :
    ∀ (pages : Nat) {rest : List (String × Nat)} {startAfter : Option String},
      rest <:+ g.members → g.after startAfter = rest →
      scanMembers q group addr pages startAfter =
        .ok (weightIn (rest.take (listMembersPageLimit * pages)) addr)
  | 0, rest, startAfter, _, _ => by
    rw [scanMembers, Nat.mul_zero, List.take_zero]
    rfl
  | pages + 1, rest, startAfter, ⟨done, hall⟩, hafter => by
    have hpage : g.page startAfter listMembersPageLimit = rest.take listMembersPageLimit := by
      rw [Group.page, hafter, Nat.min_eq_left hcap]
    -- what the pages show starts with this page
    have hshown : rest.take (listMembersPageLimit * (pages + 1)) =
        rest.take listMembersPageLimit ++
          (rest.drop listMembersPageLimit).take (listMembersPageLimit * pages) := by
      rw [Nat.mul_succ, Nat.add_comm, List.take_add]
    rw [scanMembers_succ hq, hpage, hshown]
    cases hfind : (rest.take listMembersPageLimit).find? fun m => m.1 = addr with
    | some m => rw [weightIn_append_of_find? hfind, Option.elim_some]
    | none =>
      rw [weightIn_append_of_none hfind, Option.elim_none]
      split
      · next hshort =>
          have hend : rest.drop listMembersPageLimit = [] := by
            refine List.drop_eq_nil_of_le ?_
            rw [List.length_take] at hshort
            omega
          rw [hend, List.take_nil]
          rfl
      · next hfull =>
          have hne : rest.take listMembersPageLimit ≠ [] := by
            rintro hnil
            rw [hnil] at hfull
            exact hfull (by decide)
          have hmembers : g.members = (done ++ (rest.take listMembersPageLimit).dropLast) ++
              (rest.take listMembersPageLimit).getLast hne ::
                rest.drop listMembersPageLimit := by
            rw [List.append_assoc, List.append_cons, List.dropLast_concat_getLast,
              List.take_append_drop, hall]
          rw [List.getLast?_eq_some_getLast hne, Option.map_some]
          exact scanMembers_of_full hq addr hcap pages
            ((List.drop_suffix _ _).trans ⟨done, hall⟩) (Group.after_getLast hmembers)

/-- The part of the member list that `member_weight` knows. -/
def Group.seen (g : Group) : List (String × Nat) :=
  if g.answersMember then g.members else g.members.take (g.scanned listMembersMaxPages)

theorem memberWeight_eq {config : Config} (hq : g.Answers config.cw4GroupAddr q) (addr : String) :
    memberWeight q config addr = .ok (weightIn g.seen addr) := by
  cases hm : g.answersMember with
  | true =>
    rw [memberWeight, hq.member hm, Group.seen, hm]
    rfl
  | false =>
    obtain ⟨e, he⟩ := hq.noMember hm addr
    rw [memberWeight, he, Group.seen, hm]
    by_cases hcap : listMembersPageLimit ≤ g.cap
    · rw [Group.scanned, if_pos hcap]
      exact scanMembers_of_full hq addr hcap listMembersMaxPages (List.suffix_refl _) rfl
    · rw [Group.scanned, if_neg hcap, Nat.min_eq_right (by decide), Nat.one_mul]
      exact scanMembers_of_short hq addr (Nat.lt_of_not_le hcap) 15

/-- A start of the list has the right weight of an address that is in it, or that weighs
nothing. -/
theorem weightIn_take_iff {members : List (String × Nat)} {n : Nat} :
    weightIn (members.take n) addr = weightIn members addr ↔
      weightIn members addr = 0 ∨ addr ∈ (members.take n).map Prod.fst := by
  have hsplit : weightIn members addr = weightIn (members.take n ++ members.drop n) addr := by
    rw [List.take_append_drop]
  cases hfind : (members.take n).find? fun m => m.1 = addr with
  | none =>
    have hout : addr ∉ (members.take n).map Prod.fst := by
      rintro hmem
      obtain ⟨m, hm, rfl⟩ := List.mem_map.mp hmem
      simpa using List.find?_eq_none.mp hfind m hm
    rw [weightIn_of_none hfind, eq_comm, or_iff_left hout]
  | some m =>
    have hin : addr ∈ (members.take n).map Prod.fst := by
      refine List.mem_map.mpr ⟨m, List.mem_of_find?_eq_some hfind, ?_⟩
      simpa using List.find?_some hfind
    have heq : weightIn (members.take n) addr = weightIn members addr := by
      rw [hsplit, weightIn_append_of_find? hfind]
      simp [weightIn, hfind]
    exact iff_of_true heq (.inr hin)

/-! ## Pruning and attesting -/

/-- The contract takes `addr` for a member. -/
structure Spared (q : Querier) (config : Config) (addr : String) : Prop where
  prune : ∀ (env : Env) (s : State) (i : UInt8) (r : SeatRecord), env.querier = q →
    s.config = config → s.seats[i]? = some r → r.memberAddr = addr →
    executePruneSeat env s i = fail (.memberStillActive i)
  update : ∀ (env : Env) (s : State) (i : UInt8) (hot bls : Bytes) (mayo : Option Bytes)
    (npub : Bytes), env.querier = q → s.config = config → env.sender = addr →
    executeUpdateAttestation env s i hot bls mayo npub ≠ fail .notMember

theorem ensure_ne_error {c : Prop} [Decidable c] {e e' : ContractError} (hne : e ≠ e') :
    ensure c e ≠ fail e' := by
  unfold ensure fail
  split <;> simp [hne]

theorem ensureKeyFree_ne_notMember {index : Std.ExtTreeMap Bytes UInt8} {key : Bytes} :
    ensureKeyFree index key i ≠ fail .notMember := by
  unfold ensureKeyFree fail
  split
  · split <;> simp
  · simp

theorem ensureClaimable_ne_notMember {sender : String} :
    ensureClaimable s sender i ≠ fail .notMember := by
  unfold ensureClaimable fail
  split
  · split <;> simp
  · split <;> simp

theorem ensureMayoFree_ne_notMember {mayo : Option Bytes} :
    ensureMayoFree s mayo i ≠ fail .notMember := by
  cases mayo with
  | none => simp [ensureMayoFree, fail]
  | some key =>
    exact bind_ne_error (ensure_ne_error (by decide)) fun _ _ => ensureKeyFree_ne_notMember

theorem retireExisting_ne_notMember {now : Nat} : retireExisting s i now ≠ fail .notMember := by
  unfold retireExisting fail
  split
  · unfold retireKeys
    dsimp only
    split <;> simp [Except.map]
  · simp

theorem spared_of_memberWeight {config : Config} {weight : Nat}
    (h : memberWeight q config addr = .ok weight) (hpos : 0 < weight) : Spared q config addr where
  prune := by
    rintro env s i r rfl rfl hseat rfl
    have hload : loadSeat s i = .ok r := loadSeat_eq_ok.mpr hseat
    have hpositive : ensure (weight = 0) (.memberStillActive i) = fail (.memberStillActive i) :=
      if_neg (by omega)
    simp only [executePruneSeat, hload, h, ofStd, bind, Except.bind, hpositive, fail]
  update := by
    rintro env s i hot bls mayo npub rfl rfl rfl
    -- the only check that answers `NotMember` passes
    refine bind_ne_error (ensure_ne_error (by decide)) fun _ _ => ?_
    refine bind_ne_error (by rw [h]; nofun) fun weight' hweight => ?_
    rw [h] at hweight
    cases hweight
    refine bind_ne_error (by rw [ensure, if_pos hpos]; nofun) fun _ _ => ?_
    refine bind_ne_error ensureClaimable_ne_notMember fun _ _ => ?_
    refine bind_ne_error ensureKeyFree_ne_notMember fun _ _ => ?_
    refine bind_ne_error ensureKeyFree_ne_notMember fun _ _ => ?_
    refine bind_ne_error ensureKeyFree_ne_notMember fun _ _ => ?_
    refine bind_ne_error ensureMayoFree_ne_notMember fun _ _ => ?_
    exact bind_ne_error retireExisting_ne_notMember fun _ _ => nofun

/-- **Members.** For a group of any size and page length: the weight is the group's, and a
member that weighs something keeps its seat and may attest, exactly when the group answers
`member`, the address weighs nothing, or it is in the part of the list that the scan sees. -/
theorem memberWeight_iff {g : Group} {config : Config} {q : Querier}
    (hq : g.Answers config.cw4GroupAddr q) (addr : String) :
    (memberWeight q config addr = .ok (g.weight addr) ∧
        (0 < g.weight addr → Spared q config addr)) ↔
      g.answersMember = true ∨ g.weight addr = 0 ∨
        addr ∈ (g.members.take (g.scanned listMembersMaxPages)).map Prod.fst := by
  have hweight := memberWeight_eq hq addr
  have hiff : weightIn g.seen addr = g.weight addr ↔ g.answersMember = true ∨ g.weight addr = 0 ∨
      addr ∈ (g.members.take (g.scanned listMembersMaxPages)).map Prod.fst := by
    cases hm : g.answersMember with
    | true => simp [Group.seen, hm, Group.weight]
    | false =>
      rw [Group.seen, hm, Group.weight, if_neg Bool.false_ne_true, weightIn_take_iff]
      simp
  rw [← hiff]
  constructor
  · rintro ⟨hok, -⟩
    exact Except.ok.inj (hweight.symm.trans hok)
  · intro heq
    rw [heq] at hweight
    exact ⟨hweight, fun hpos => spared_of_memberWeight hweight hpos⟩

/-! ### A group with pages of one member -/

/-- Two members, one to a page, and no `member` query. -/
def pagedGroup : Group where
  members := [("ada", 1), ("bea", 1)]
  cap := 1
  answersMember := false
  sorted := by decide
  cap_pos := by decide

def pagedQuerier : Querier where
  member _ _ := .error (.genericErr "unknown variant")
  listMembers _ startAfter limit := .ok (pagedGroup.page startAfter limit)

theorem answers_pagedGroup (group : String) : pagedGroup.Answers group pagedQuerier where
  member := nofun
  noMember _ _ := ⟨_, rfl⟩
  listMembers _ _ := rfl

theorem memberWeight_iff_paged :
    (memberWeight pagedQuerier ⟨"group", "dao"⟩ "ada" = .ok (pagedGroup.weight "ada") ∧
        (0 < pagedGroup.weight "ada" → Spared pagedQuerier ⟨"group", "dao"⟩ "ada")) ↔
      pagedGroup.answersMember = true ∨ pagedGroup.weight "ada" = 0 ∨
        "ada" ∈ (pagedGroup.members.take (pagedGroup.scanned listMembersMaxPages)).map Prod.fst :=
  memberWeight_iff (answers_pagedGroup "group") "ada"

/-- `bea` takes a seat while a group answers for it; then anybody prunes it, although `bea`
weighs 1 in the group. -/
def pruneCalls : List Call :=
  [⟨⟨plainApi, groupOf ["bea"], 1000, "bea", []⟩, .updateAttestation 0 [1] [2] none [4]⟩,
    ⟨⟨plainApi, pagedQuerier, 1001, "eve", []⟩, .pruneSeat 0⟩]

theorem prune_removes_member :
    (run sampleState (pruneCalls.take 1)).seats[(0 : UInt8)]?.map SeatRecord.memberAddr =
        some "bea" ∧
      pagedGroup.Answers (run sampleState (pruneCalls.take 1)).config.cw4GroupAddr pagedQuerier ∧
      pagedGroup.weight "bea" = 1 ∧
      (run sampleState pruneCalls).seats[(0 : UInt8)]? = none := by
  refine ⟨by decide +kernel, answers_pagedGroup _, by decide +kernel, by decide +kernel⟩

end LayerSdk.Seats

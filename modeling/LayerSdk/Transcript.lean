import LayerSdk.Codec
import LayerSdk.Merkle
import Mathlib.Algebra.BigOperators.Group.List.Basic
import Mathlib.Data.List.Sort

/-!
# Anchoring a transcript

A pass of the checkpoint daemon on a channel: it fetches the events of a
window page by page, newest first, commits to the oldest of them up to a
size, and moves its cursor to the end of what it committed to.

The three loops fit together as long as a window is fetched as a whole
(`Whole`). The walk goes on before the oldest second of a full page, so the
rest of a second that a page has cut is never asked for; and it ends after 256
pages, whatever is left. `anchored_once` is the coverage law for the runs in
which neither happens.
-/

namespace LayerSdk.Checkpoint

/-! ## The daemon -/

structure Event where
  id : String
  pubkey : String
  createdAt : Nat
  kind : Nat
  tags : List (List String)
  content : String
  sig : String
deriving DecidableEq

/-- `fetch_page`: both bounds are inclusive. -/
abbrev PageSource := (since upTo limit : Nat) → Except String (List Event)

def pageLimit : Nat := 200

def maxPages : Nat := 256

def minTs (page : List Event) : Nat := ((page.map Event.createdAt).min?).getD 0

/-- The loop of `fetch_window`, with some pages left. -/
def fetchLoop (src : PageSource) (start limit : Nat) :
    Nat → Nat → List Event → Except String (List Event)
  | 0, _, out => .ok out
  | pages + 1, cursor, out =>
    if cursor = 0 ∨ cursor - 1 < start then .ok out
    else
      match src start (cursor - 1) limit with
      | .error e => .error e
      | .ok page =>
        if page = [] then .ok out
        else if page.length < limit ∨ minTs page ≤ start then .ok (out ++ page)
        else fetchLoop src start limit pages (minTs page) (out ++ page)

def fetchWindow (src : PageSource) (start stop limit : Nat) : Except String (List Event) :=
  fetchLoop src start limit maxPages stop []

inductive PackageError where
  | emptyWindow
  | badEventId (id : String)
  | firstSecondTooLarge
deriving DecidableEq, Repr

def PackageError.display : PackageError → String
  | emptyWindow => "empty window — nothing to anchor"
  | badEventId id => "message missing/invalid 64-hex id: " ++ reprStr id
  | firstSecondTooLarge => "first second of window alone exceeds max-size; refusing"

structure AnchorPackage where
  format : String
  rootHex : String
  rootB64 : String
  count : Nat
  sizeBytes : Nat
  fromTs : Nat
  toTs : Nat
  firstId : String
  lastId : String
  truncated : Bool

def formatTag : String := "JC-TRANSCRIPT-ANCHOR-v1"

def isAsciiHexdigit (c : Char) : Bool :=
  ('0' ≤ c && c ≤ '9') || ('a' ≤ c && c ≤ 'f') || ('A' ≤ c && c ≤ 'F')

def validId (id : String) : Bool := id.toList.length = 64 && id.toList.all isAsciiHexdigit

/-- The last event with an id stays. -/
def dedupLast : List Event → List Event
  | [] => []
  | e :: rest => if rest.any fun x => x.id = e.id then dedupLast rest else e :: dedupLast rest

/-- The order by `(created_at, id)`. -/
abbrev Event.Le (a b : Event) : Prop :=
  a.createdAt < b.createdAt ∨ a.createdAt = b.createdAt ∧ a.id ≤ b.id

def ordered (events : List Event) : List Event := (dedupLast events).insertionSort Event.Le

def contentLen (e : Event) : Nat := (str e.content).length

/-- No event of the same second follows. -/
def endsSecond (e : Event) : List Event → Bool
  | [] => true
  | next :: _ => next.createdAt ≠ e.createdAt

/-- How many events fit, up to the end of a second. -/
def cutLoop (max : Nat) (total i cut : Nat) : List Event → Nat
  | [] => cut
  | e :: rest =>
    if max < total + contentLen e then cut
    else cutLoop max (total + contentLen e) (i + 1) (if endsSecond e rest then i + 1 else cut) rest

def excluded (events kept : List Event) : List Event :=
  events.filter fun e => !(kept.map Event.id).contains e.id

/-- The first excluded event, or the end of the window, bounds the package. -/
def boundOf (events kept : List Event) (truncated : Bool) (claimedTo : Option Nat) : Nat :=
  let last := (kept.getLast?.map fun e => e.createdAt + 1).getD 0
  if truncated then (((excluded events kept).map Event.createdAt).min?).getD last
  else max last (claimedTo.getD 0)

def rootOf (H : Bytes → Digest) (kept : List Event) : Digest :=
  merkleRoot H (kept.map fun e => leafHash H ((hexDecode e.id).getD []) [])

/-- The package over the kept events. -/
def packageOf (H : Bytes → Digest) (events kept : List Event) (truncated : Bool)
    (claimedTo : Option Nat) : AnchorPackage where
  format := formatTag
  rootHex := hexEncode (rootOf H kept).bytes
  rootB64 := String.ofList (base64Chars (rootOf H kept).bytes)
  count := kept.length
  sizeBytes := (kept.map contentLen).sum
  fromTs := (kept.head?.map Event.createdAt).getD 0
  toTs := boundOf events kept truncated claimedTo
  firstId := (kept.head?.map Event.id).getD ""
  lastId := (kept.getLast?.map Event.id).getD ""
  truncated := truncated

/-- How many of the ordered events the package keeps. -/
def cutAt (all : List Event) : Option Nat → Nat
  | none => all.length
  | some max => cutLoop max 0 0 0 all

/-- The package and its leaves, in order. -/
def anchorPackage (H : Bytes → Digest) (events : List Event) (maxSize claimedTo : Option Nat) :
    Except PackageError (AnchorPackage × List Event) :=
  if events = [] then .error .emptyWindow
  else
    match events.find? fun e => !validId e.id with
    | some e => .error (.badEventId e.id)
    | none =>
      let all := ordered events
      let cut := cutAt all maxSize
      if cut < all.length ∧ cut = 0 then .error .firstSecondTooLarge
      else
        let kept := all.take cut
        let truncated : Bool := cut < all.length
        .ok (packageOf H events kept truncated claimedTo, kept)

structure ChannelState where
  nextFromTs : Nat
  lastEntry : Option String
deriving DecidableEq, Repr

structure Args where
  bootstrapHours : Nat
  lagSecs : Nat
  maxSize : Nat

/-- How a write of the state file ends. -/
inductive Save where
  | written
  | failed (e : String)
  | writtenAndFailed (e : String)

/-- The clock of a pass and the answers of what it calls: the state file, the relay, the
relayer's command, the attempts to find the entry of a commitment, and the checkpoint key. -/
structure Pass where
  now : Nat
  load : Except String Unit
  connect : Except String Unit
  fetchPage : PageSource
  blsExecute : Except String (String × Bool)
  findEntry : Nat → String → Except String (Option String)
  save : ChannelState → Save
  signCheckpoint : Except String Unit

/-- Six attempts. -/
def findLoop (findEntry : Nat → Except String (Option String)) : Nat → Nat → Option String
  | 0, _ => none
  | attempts + 1, i =>
    match findEntry i with
    | .ok (some entry) => some entry
    | _ => findLoop findEntry attempts (i + 1)

/-- What a pass leaves: the state file, its result, and the leaves of the package that
moved the cursor. -/
structure Outcome where
  disk : Option ChannelState
  result : Except String Unit
  leaves : Option (List Event)

def Outcome.unchanged (disk : Option ChannelState) (result : Except String Unit) : Outcome :=
  ⟨disk, result, none⟩

/-- Write the state; the leaves count if it is written. -/
def commit (p : Pass) (disk : Option ChannelState) (st : ChannelState)
    (leaves : Option (List Event)) : Outcome :=
  match p.save st with
  | .written => ⟨some st, .ok (), leaves⟩
  | .writtenAndFailed e => ⟨some st, .error e, leaves⟩
  | .failed e => .unchanged disk (.error e)

/-- The checkpoint is signed after the state is written. -/
def Outcome.thenSign (o : Outcome) (p : Pass) : Outcome :=
  match o.result with
  | .ok () => { o with result := p.signCheckpoint }
  | .error _ => o

/-- Post the package and read it back. -/
def postPackage (p : Pass) (disk : Option ChannelState) (pkg : AnchorPackage)
    (leaves : List Event) : Outcome :=
  match p.blsExecute with
  | .error e => .unchanged disk (.error e)
  | .ok _ =>
    match findLoop (fun i => p.findEntry i pkg.rootB64) 6 0 with
    -- a failed commit is not an error, the next pass retries
    | none => .unchanged disk (.ok ())
    | some entry => (commit p disk ⟨pkg.toTs, some entry⟩ (some leaves)).thenSign p

/-- The start of the next window. -/
def windowStart (a : Args) (now : Nat) : Option ChannelState → Nat
  | some s => s.nextFromTs
  | none => now - a.bootstrapHours * 3600 % 2 ^ 64

/-- The pass, once the events are fetched. -/
def anchorEvents (H : Bytes → Digest) (a : Args) (p : Pass) (disk : Option ChannelState)
    (stop : Nat) (events : List Event) : Outcome :=
  if events = [] then commit p disk ⟨stop, disk.bind ChannelState.lastEntry⟩ none
  else
    match anchorPackage H events (some a.maxSize) (some stop) with
    | .error e => .unchanged disk (.error e.display)
    | .ok (pkg, leaves) => postPackage p disk pkg leaves

def runChannel (H : Bytes → Digest) (a : Args) (p : Pass) (disk : Option ChannelState) : Outcome :=
  match p.load with
  | .error e => .unchanged disk (.error e)
  | .ok () =>
    let start := windowStart a p.now disk
    let stop := p.now - a.lagSecs
    if stop ≤ start then .unchanged disk (.ok ())
    else
      match p.connect with
      | .error e => .unchanged disk (.error e)
      | .ok () =>
        match fetchWindow p.fetchPage start stop pageLimit with
        | .error e => .unchanged disk (.error e)
        | .ok events => anchorEvents H a p disk stop events

/-! ## The relay's store -/

/-- What the relay may answer: newest first, limited. -/
structure PageOf (store : List Event) (since upTo limit : Nat) (page : List Event) : Prop where
  nodup : page.Nodup
  mem : ∀ e ∈ page, e ∈ store ∧ since ≤ e.createdAt ∧ e.createdAt ≤ upTo
  newestFirst : page.Pairwise fun a b => b.createdAt ≤ a.createdAt
  limited : page.length ≤ limit
  complete : ∀ e ∈ store, since ≤ e.createdAt → e.createdAt ≤ upTo → e ∉ page →
    limit ≤ page.length ∧ ∀ x ∈ page, e.createdAt ≤ x.createdAt

def Serves (store : List Event) (src : PageSource) : Prop :=
  ∀ since upTo limit page, src since upTo limit = .ok page → PageOf store since upTo limit page

/-- A relay that answers so. -/
def relayPages (store : List Event) : PageSource := fun since upTo limit =>
  .ok (((store.filter fun e => since ≤ e.createdAt && e.createdAt ≤ upTo).insertionSort
    fun a b => b.createdAt ≤ a.createdAt).take limit)

instance : Std.Total fun a b : Event => b.createdAt ≤ a.createdAt :=
  ⟨fun a b => Nat.le_total b.createdAt a.createdAt⟩

instance : IsTrans Event fun a b => b.createdAt ≤ a.createdAt :=
  ⟨fun _ _ _ hab hbc => Nat.le_trans hbc hab⟩

variable {store page events all done rest kept : List Event} {src : PageSource}
  {start limit stop cut : Nat} {e : Event} {H : Bytes → Digest} {a : Args}

theorem serves_relayPages (hnodup : store.Nodup) : Serves store (relayPages store) := by
  intro since upTo limit page hpage
  cases hpage
  generalize hall : ((store.filter fun e => since ≤ e.createdAt && e.createdAt ≤ upTo).insertionSort
    fun a b => b.createdAt ≤ a.createdAt) = all
  have hperm : all.Perm (store.filter fun e => since ≤ e.createdAt && e.createdAt ≤ upTo) :=
    hall ▸ List.perm_insertionSort _ _
  have hsorted : all.Pairwise fun a b => b.createdAt ≤ a.createdAt :=
    hall ▸ List.pairwise_insertionSort _ _
  have hmem : ∀ e, e ∈ all ↔ e ∈ store ∧ since ≤ e.createdAt ∧ e.createdAt ≤ upTo := fun e => by
    simp [hperm.mem_iff]
  refine ⟨?_, fun e he => (hmem e).mp (List.mem_of_mem_take he),
    hsorted.sublist (List.take_sublist _ _), by simp, fun e he hge hle hout => ?_⟩
  · exact (hperm.nodup_iff.mpr (hnodup.filter _)).sublist (List.take_sublist _ _)
  · -- what the page leaves out stands after it in the order
    have hall' : e ∈ all.take limit ++ all.drop limit := by
      rw [List.take_append_drop]
      exact (hmem e).mpr ⟨he, hge, hle⟩
    have hdrop := (List.mem_append.mp hall').resolve_left hout
    rw [← List.take_append_drop limit all] at hsorted
    have hlen := List.length_pos_of_mem hdrop
    rw [List.length_drop] at hlen
    refine ⟨by rw [List.length_take]; omega, fun x hx => ?_⟩
    exact (List.pairwise_append.mp hsorted).2.2 x hx e hdrop

/-! ## The walk -/

/-- From the cursor on, no full page cuts its oldest second, and nothing is left when the
pages are used up. -/
def WalkWhole (store : List Event) (src : PageSource) (start limit : Nat) : Nat → Nat → Prop
  | 0, cursor => ∀ e ∈ store, start ≤ e.createdAt → cursor ≤ e.createdAt
  | pages + 1, cursor => start < cursor → ∀ page, src start (cursor - 1) limit = .ok page →
      page ≠ [] → limit ≤ page.length →
        (∀ e ∈ store, e.createdAt = minTs page → e ∈ page) ∧
        (start < minTs page → WalkWhole store src start limit pages (minTs page))

/-- A store smaller than a page fills none. -/
theorem walkWhole_of_short (hserves : Serves store src) (hshort : store.length < limit)
    (pages cursor : Nat) : WalkWhole store src start limit (pages + 1) cursor := by
  intro _ page hpage _ hfull
  have hp := hserves _ _ _ _ hpage
  have hle := (List.subperm_of_subset hp.nodup fun e he => (hp.mem e he).1).length_le
  omega

/-- Exactly the events of a stretch of time. -/
structure Collected (store : List Event) (start stop : Nat) (out : List Event) : Prop where
  nodup : out.Nodup
  mem : ∀ e, e ∈ out ↔ e ∈ store ∧ start ≤ e.createdAt ∧ e.createdAt < stop

theorem Collected.empty (store : List Event) (stop : Nat) : Collected store stop stop [] where
  nodup := List.nodup_nil
  mem e := by
    simp only [List.not_mem_nil, false_iff]
    omega

/-- Two stretches that meet. -/
theorem Collected.append {late early : List Event} {lo mid hi : Nat} (hlo : lo ≤ mid)
    (hhi : mid ≤ hi) (hlate : Collected store mid hi late) (hearly : Collected store lo mid early) :
    Collected store lo hi (late ++ early) where
  nodup := by
    refine hlate.nodup.append hearly.nodup fun e hl he => ?_
    have hge := ((hlate.mem e).mp hl).2.1
    have hlt := ((hearly.mem e).mp he).2.2
    omega
  mem e := by
    rw [List.mem_append, hlate.mem, hearly.mem]
    constructor
    · rintro (⟨h, _, _⟩ | ⟨h, _, _⟩)
      · exact ⟨h, by omega, by omega⟩
      · exact ⟨h, by omega, by omega⟩
    · rintro ⟨h, hge, hlt⟩
      rcases Nat.lt_or_ge e.createdAt mid with hm | hm
      · exact .inr ⟨h, hge, hm⟩
      · exact .inl ⟨h, hm, hlt⟩

theorem minTs_le (he : e ∈ page) : minTs page ≤ e.createdAt := by
  have hmem : e.createdAt ∈ page.map Event.createdAt := List.mem_map_of_mem he
  obtain ⟨m, hm⟩ := Option.isSome_iff_exists.mp (List.isSome_min?_of_mem hmem)
  rw [minTs, hm, Option.getD_some]
  exact (List.min?_eq_some_iff.mp hm).2 _ hmem

theorem exists_minTs (hne : page ≠ []) : ∃ e ∈ page, e.createdAt = minTs page := by
  obtain ⟨x, hx⟩ := List.exists_mem_of_ne_nil page hne
  have hmem : x.createdAt ∈ page.map Event.createdAt := List.mem_map_of_mem hx
  obtain ⟨m, hm⟩ := Option.isSome_iff_exists.mp (List.isSome_min?_of_mem hmem)
  obtain ⟨e, he, hem⟩ := List.mem_map.mp (List.min?_eq_some_iff.mp hm).1
  exact ⟨e, he, by rw [minTs, hm, Option.getD_some, hem]⟩

/-- A page covers what lies between some bound and the cursor, if it misses nothing there. -/
theorem PageOf.collected {since cursor lo : Nat} (h : PageOf store since (cursor - 1) limit page)
    (hpos : 0 < cursor) (hlo : ∀ e ∈ page, lo ≤ e.createdAt)
    (hall : ∀ e ∈ store, lo ≤ e.createdAt → e.createdAt < cursor → e ∈ page) :
    Collected store lo cursor page where
  nodup := h.nodup
  mem e := by
    constructor
    · intro he
      have hb := h.mem e he
      exact ⟨hb.1, hlo e he, by omega⟩
    · rintro ⟨hst, hge, hlt⟩
      exact hall e hst hge hlt

/-- What a page without cut seconds misses is older than the page. -/
theorem PageOf.older {since upTo : Nat} (h : PageOf store since upTo limit page) (hne : page ≠ [])
    (hcut : limit ≤ page.length → ∀ e ∈ store, e.createdAt = minTs page → e ∈ page) (he : e ∈ store)
    (hge : since ≤ e.createdAt) (hle : e.createdAt ≤ upTo) (hmin : minTs page ≤ e.createdAt) :
    e ∈ page := by
  by_contra hout
  obtain ⟨hfull, hold⟩ := h.complete e he hge hle hout
  obtain ⟨x, hx, hxmin⟩ := exists_minTs hne
  have hxe := hold x hx
  exact hout (hcut hfull e he (by omega))

/-- The walk, from any cursor on: the invariant is that everything from the cursor on is
collected. -/
theorem fetchLoop_collected (hserves : Serves store src) (hlimit : 0 < limit) :
    ∀ {pages cursor : Nat} {out res : List Event}, start ≤ cursor → cursor ≤ stop →
      Collected store cursor stop out → WalkWhole store src start limit pages cursor →
      fetchLoop src start limit pages cursor out = .ok res → Collected store start stop res
  | 0, cursor, out, res, hle, hstop, hout, hwhole, hres => by
    obtain rfl : out = res := Except.ok.inj hres
    have hnone : Collected store start cursor [] :=
      { nodup := List.nodup_nil
        mem := fun e => by
          simp only [List.not_mem_nil, false_iff]
          rintro ⟨hst, hge, hlt⟩
          have := hwhole e hst hge
          omega }
    simpa using hout.append hle hstop hnone
  | pages + 1, cursor, out, res, hle, hstop, hout, hwhole, hres => by
    rw [fetchLoop] at hres
    split at hres
    · rename_i hend
      obtain rfl : out = res := Except.ok.inj hres
      obtain rfl : start = cursor := by omega
      exact hout
    · rename_i hmore
      have hlt : start < cursor := by omega
      split at hres
      · cases hres
      · rename_i page hpage
        have hp := hserves _ _ _ _ hpage
        split at hres
        · -- an empty page: nothing is left below the cursor
          rename_i hnil
          obtain rfl : out = res := Except.ok.inj hres
          subst hnil
          have hnone : Collected store start cursor [] :=
            hp.collected (by omega) (by simp) fun e he hge hlt' => by
              have hfull := (hp.complete e he hge (by omega) (by simp)).1
              simp only [List.length_nil] at hfull
              omega
          simpa using hout.append hle hstop hnone
        · rename_i hne
          have hcut : limit ≤ page.length → ∀ e ∈ store, e.createdAt = minTs page → e ∈ page :=
            fun hfull => (hwhole hlt page hpage hne hfull).1
          obtain ⟨x, hx, hxmin⟩ := exists_minTs hne
          have hxb := hp.mem x hx
          split at hres
          · -- the walk ends with this page
            rename_i hlast
            obtain rfl : out ++ page = res := Except.ok.inj hres
            refine hout.append hle hstop (hp.collected (by omega) (fun e he => (hp.mem e he).2.1) ?_)
            intro e he hge hlt'
            rcases hlast with hshort | hmin
            · by_contra hmiss
              have hfull := (hp.complete e he hge (by omega) hmiss).1
              omega
            · exact hp.older hne hcut he hge (by omega) (by omega)
          · -- the walk goes on below the page's oldest second
            rename_i hgoon
            have hfull : limit ≤ page.length := by omega
            have hstart : start < minTs page := by omega
            refine fetchLoop_collected hserves hlimit (by omega) (by omega) ?_
              ((hwhole hlt page hpage hne hfull).2 hstart) hres
            refine hout.append (by omega) hstop
              (hp.collected (by omega) (fun e he => minTs_le he) ?_)
            intro e he hge hlt'
            exact hp.older hne hcut he (by omega) (by omega) hge

theorem fetchWindow_collected (hserves : Serves store src) (hle : start ≤ stop)
    (hwhole : WalkWhole store src start pageLimit maxPages stop)
    (h : fetchWindow src start stop pageLimit = .ok events) : Collected store start stop events :=
  fetchLoop_collected hserves (by decide) hle (Nat.le_refl stop) (Collected.empty store stop)
    hwhole h

/-! ## The package -/

theorem dedupLast_of_nodup : ∀ {events : List Event}, (events.map Event.id).Nodup →
    dedupLast events = events
  | [], _ => rfl
  | e :: rest, h => by
    rw [List.map_cons, List.nodup_cons] at h
    have hnone : (rest.any fun x => x.id = e.id) = false := by
      rw [List.any_eq_false]
      intro x hx hid
      exact h.1 (List.mem_map.mpr ⟨x, hx, of_decide_eq_true hid⟩)
    simp only [dedupLast, hnone, Bool.false_eq_true, if_false, dedupLast_of_nodup h.2]

theorem Event.Le.total (a b : Event) : a.Le b ∨ b.Le a := by
  rcases Nat.lt_trichotomy a.createdAt b.createdAt with h | h | h
  · exact .inl (.inl h)
  · rcases String.le_total a.id b.id with hid | hid
    · exact .inl (.inr ⟨h, hid⟩)
    · exact .inr (.inr ⟨h.symm, hid⟩)
  · exact .inr (.inl h)

theorem Event.Le.trans {a b c : Event} (hab : a.Le b) (hbc : b.Le c) : a.Le c := by
  rcases hab with hab | ⟨hab, hid⟩ <;> rcases hbc with hbc | ⟨hbc, hid'⟩
  · exact .inl (by omega)
  · exact .inl (by omega)
  · exact .inl (by omega)
  · exact .inr ⟨by omega, String.le_trans hid hid'⟩

instance : Std.Total Event.Le := ⟨Event.Le.total⟩

instance : IsTrans Event Event.Le := ⟨fun _ _ _ => Event.Le.trans⟩

theorem ordered_perm (h : (events.map Event.id).Nodup) : (ordered events).Perm events := by
  rw [ordered, dedupLast_of_nodup h]
  exact List.perm_insertionSort _ _

theorem ordered_sorted (events : List Event) :
    (ordered events).Pairwise fun a b => a.createdAt ≤ b.createdAt := by
  refine (List.pairwise_insertionSort Event.Le (dedupLast events)).imp fun {a b} h => ?_
  rcases h with h | h <;> omega

/-- The list is cut between two seconds. -/
def SplitsAt (all : List Event) (n : Nat) : Prop :=
  ∀ a ∈ all.take n, ∀ b ∈ all.drop n, a.createdAt < b.createdAt

/-- After the last event of a second the list is cut between two seconds. -/
theorem splitsAt_of_endsSecond (hsorted : all.Pairwise fun a b => a.createdAt ≤ b.createdAt)
    (hall : all = (done ++ [e]) ++ rest) (hends : endsSecond e rest = true) :
    SplitsAt all (done ++ [e]).length := by
  rw [hall, SplitsAt, List.take_left, List.drop_left]
  rw [hall] at hsorted
  obtain ⟨hdone, hrest, hcross⟩ := List.pairwise_append.mp hsorted
  intro a ha b hb
  cases rest with
  | nil => cases hb
  | cons next rest =>
    have hne : next.createdAt ≠ e.createdAt := by simpa [endsSecond] using hends
    have hae : a.createdAt ≤ e.createdAt := by
      rcases List.mem_append.mp ha with ha | ha
      · exact (List.pairwise_append.mp hdone).2.2 a ha e (List.mem_singleton_self e)
      · rw [List.mem_singleton.mp ha]
    have hen : e.createdAt ≤ next.createdAt :=
      hcross e (by simp) next (List.mem_cons_self)
    have hnb : next.createdAt ≤ b.createdAt := by
      rcases List.mem_cons.mp hb with rfl | hb
      · exact Nat.le_refl _
      · exact (List.pairwise_cons.mp hrest).1 b hb
    omega

theorem not_splitsAt_of_not_endsSecond (hall : all = (done ++ [e]) ++ rest)
    (hends : ¬ endsSecond e rest = true) : ¬ SplitsAt all (done ++ [e]).length := by
  rw [hall, SplitsAt, List.take_left, List.drop_left]
  intro hsplit
  cases rest with
  | nil => exact hends rfl
  | cons next rest =>
    have heq : next.createdAt = e.createdAt := by simpa [endsSecond] using hends
    have hlt := hsplit e (by simp) next (List.mem_cons_self)
    omega

def contentSize (events : List Event) : Nat := (events.map contentLen).sum

theorem contentSize_append (a b : List Event) :
    contentSize (a ++ b) = contentSize a + contentSize b := by
  simp [contentSize]

theorem contentSize_take_mono (all : List Event) {m n : Nat} (h : m ≤ n) :
    contentSize (all.take m) ≤ contentSize (all.take n) := by
  obtain ⟨rest, hrest⟩ := List.take_prefix_take_left (l := all) h
  rw [← hrest, contentSize_append]
  exact Nat.le_add_right _ _

/-- The content fits. -/
def Fits (maxSize : Option Nat) (events : List Event) : Prop :=
  ∀ max, maxSize = some max → contentSize events ≤ max

/-- The first `n` events are the longest start of the list that ends with a second and
fits. -/
structure LongestFit (all : List Event) (maxSize : Option Nat) (n : Nat) : Prop where
  le : n ≤ all.length
  whole : SplitsAt all n
  fits : Fits maxSize (all.take n)
  longest : ∀ m, m ≤ all.length → SplitsAt all m → Fits maxSize (all.take m) → m ≤ n

/-- The loop has passed `done`: that much fits, and `cut` is the last end of a second in it. -/
structure Passed (all : List Event) (max : Nat) (done : List Event) (cut : Nat) : Prop where
  fits : contentSize done ≤ max
  le : cut ≤ done.length
  splits : SplitsAt all cut
  last : ∀ m, m ≤ done.length → SplitsAt all m → m ≤ cut

/-- One more event fits. -/
theorem Passed.next {max : Nat} (hsorted : all.Pairwise fun a b => a.createdAt ≤ b.createdAt)
    (hall : all = (done ++ [e]) ++ rest) (h : Passed all max done cut)
    (hfits : contentSize (done ++ [e]) ≤ max) :
    Passed all max (done ++ [e]) (if endsSecond e rest then (done ++ [e]).length else cut) := by
  have hlen : (done ++ [e]).length = done.length + 1 := by simp
  have hle := h.le
  split
  · next hends =>
      exact ⟨hfits, Nat.le_refl _, splitsAt_of_endsSecond hsorted hall hends, fun m hm _ => hm⟩
  · next hmore =>
      refine ⟨hfits, by omega, h.splits, fun m hm hsplit => ?_⟩
      have hne : m ≠ (done ++ [e]).length := fun heq =>
        not_splitsAt_of_not_endsSecond hall hmore (heq ▸ hsplit)
      exact h.last m (by omega) hsplit

theorem cutLoop_longest {max : Nat} (hsorted : all.Pairwise fun a b => a.createdAt ≤ b.createdAt) :
    ∀ {rest done : List Event} {cut : Nat}, all = done ++ rest → Passed all max done cut →
      LongestFit all (some max) (cutLoop max (contentSize done) done.length cut rest)
  | [], done, cut, hall, h => by
    obtain rfl : all = done := by simpa using hall
    rw [cutLoop]
    refine ⟨h.le, h.splits, fun max' hmax => ?_, fun m hm hsplit _ => h.last m hm hsplit⟩
    cases hmax
    have hmono := contentSize_take_mono all h.le
    rw [List.take_length] at hmono
    exact Nat.le_trans hmono h.fits
  | e :: rest, done, cut, hall, h => by
    have hnext : all = (done ++ [e]) ++ rest := by simp [hall]
    have hlen : (done ++ [e]).length = done.length + 1 := by simp
    have hsize : contentSize (done ++ [e]) = contentSize done + contentLen e := by
      rw [contentSize_append]
      simp [contentSize]
    have hdone : all.take done.length = done := by rw [hall, List.take_left]
    have hdone' : all.take (done ++ [e]).length = done ++ [e] := by rw [hnext, List.take_left]
    rw [cutLoop]
    split
    · -- the next event does not fit, so no longer start does
      next hbig =>
        have hle : done.length ≤ all.length := by simp [hall]
        refine ⟨Nat.le_trans h.le hle, h.splits, fun max' hmax => ?_, fun m _ hsplit hfits => ?_⟩
        · cases hmax
          have hmono := contentSize_take_mono all h.le
          rw [hdone] at hmono
          exact Nat.le_trans hmono h.fits
        · refine h.last m (Nat.le_of_not_lt fun hlt => ?_) hsplit
          have hle' : (done ++ [e]).length ≤ m := by omega
          have hmono := contentSize_take_mono all hle'
          rw [hdone'] at hmono
          have := hfits max rfl
          omega
    · next hfit =>
        have hpassed := h.next hsorted hnext (by omega)
        rw [← hsize, ← hlen]
        exact cutLoop_longest hsorted hnext hpassed

theorem cutAt_longest (hsorted : all.Pairwise fun a b => a.createdAt ≤ b.createdAt)
    (maxSize : Option Nat) : LongestFit all maxSize (cutAt all maxSize) := by
  cases maxSize with
  | none => exact ⟨Nat.le_refl _, by simp [cutAt, SplitsAt], nofun, fun m hm _ _ => hm⟩
  | some max =>
    have hnone : all = [] ++ all := rfl
    exact cutLoop_longest hsorted hnone
      ⟨Nat.zero_le _, Nat.le_refl _, by simp [SplitsAt], fun m hm _ => hm⟩

/-- Equal ids mean equal events. -/
def IdsAgree (events : List Event) : Prop :=
  ∀ a ∈ events, ∀ b ∈ events, a.id = b.id → a = b

theorem IdsAgree.of_nodup (h : (events.map Event.id).Nodup) : IdsAgree events :=
  fun _ ha _ hb hid => List.inj_on_of_nodup_map h ha hb hid

theorem mem_excluded (hids : IdsAgree events) (hsub : ∀ e ∈ kept, e ∈ events) :
    e ∈ excluded events kept ↔ e ∈ events ∧ e ∉ kept := by
  simp only [excluded, List.mem_filter, Bool.not_eq_true', List.contains_eq_mem,
    decide_eq_false_iff_not, List.mem_map, not_exists, not_and]
  constructor
  · rintro ⟨he, hid⟩
    exact ⟨he, fun hk => hid e hk rfl⟩
  · rintro ⟨he, hk⟩
    refine ⟨he, fun x hx hxe => hk ?_⟩
    rw [← hids x (hsub x hx) e he hxe]
    exact hx

theorem boundOf_truncated (hne : excluded events kept ≠ []) (claimedTo : Option Nat) :
    boundOf events kept true claimedTo = minTs (excluded events kept) := by
  obtain ⟨e, he⟩ := List.exists_mem_of_ne_nil _ hne
  obtain ⟨m, hm⟩ :=
    Option.isSome_iff_exists.mp
      (List.isSome_min?_of_mem (List.mem_map_of_mem (f := Event.createdAt) he))
  simp only [boundOf, if_true, minTs, hm, Option.getD_some]

theorem boundOf_whole (hin : ∀ e ∈ kept, e.createdAt < stop) :
    boundOf events kept false (some stop) = stop := by
  have hlast : (kept.getLast?.map fun e => e.createdAt + 1).getD 0 ≤ stop := by
    cases hl : kept.getLast? with
    | none => simp
    | some e =>
      have := hin e (List.mem_of_getLast? hl)
      simp only [Option.map_some, Option.getD_some]
      omega
  simp only [boundOf, Bool.false_eq_true, if_false, Option.getD_some]
  omega

/-- The end of everything is past its last event. -/
theorem lt_boundOf_whole {claimedTo : Option Nat}
    (hsorted : kept.Pairwise fun a b => a.createdAt ≤ b.createdAt) (he : e ∈ kept) :
    e.createdAt < boundOf events kept false claimedTo := by
  obtain ⟨front, last, rfl⟩ : ∃ front last, kept = front ++ [last] :=
    ⟨kept.dropLast, kept.getLast (List.ne_nil_of_mem he), (List.dropLast_concat_getLast _).symm⟩
  have hle : e.createdAt ≤ last.createdAt := by
    rcases List.mem_append.mp he with he | he
    · exact (List.pairwise_append.mp hsorted).2.2 e he last (List.mem_singleton_self last)
    · rw [List.mem_singleton.mp he]
  simp only [boundOf, Bool.false_eq_true, if_false, List.getLast?_append, List.getLast?_singleton,
    Option.some_or, Option.map_some, Option.getD_some]
  omega

/-- A cut list is bounded by the first event after the cut. -/
theorem exists_boundOf_truncated (hids : IdsAgree events) (hmem : ∀ e, e ∈ all ↔ e ∈ events)
    (hsplit : SplitsAt all cut) (htrunc : cut < all.length) (claimedTo : Option Nat) :
    (∃ x ∈ all.drop cut, boundOf events (all.take cut) true claimedTo = x.createdAt) ∧
      ∀ e ∈ all.drop cut, boundOf events (all.take cut) true claimedTo ≤ e.createdAt := by
  have hex : ∀ e, e ∈ excluded events (all.take cut) ↔ e ∈ all.drop cut := fun e => by
    rw [mem_excluded hids fun x hx => (hmem x).mp (List.mem_of_mem_take hx), ← hmem]
    constructor
    · rintro ⟨he, hout⟩
      rw [← List.take_append_drop cut all] at he
      exact (List.mem_append.mp he).resolve_left hout
    · intro he
      exact ⟨List.mem_of_mem_drop he, fun hk => Nat.lt_irrefl _ (hsplit e hk e he)⟩
  obtain ⟨r, hr⟩ := List.exists_mem_of_ne_nil (all.drop cut) (by simpa using htrunc)
  have hne : excluded events (all.take cut) ≠ [] := List.ne_nil_of_mem ((hex r).mpr hr)
  rw [boundOf_truncated hne]
  obtain ⟨x, hx, hxmin⟩ := exists_minTs hne
  exact ⟨⟨x, (hex x).mp hx, hxmin.symm⟩, fun e he => minTs_le ((hex e).mpr he)⟩

/-- The bound lies between what is kept and what is not. -/
theorem boundOf_between (hids : IdsAgree events) (hmem : ∀ e, e ∈ all ↔ e ∈ events)
    (hsorted : all.Pairwise fun a b => a.createdAt ≤ b.createdAt) (hsplit : SplitsAt all cut)
    (claimedTo : Option Nat) : (∀ e ∈ all.take cut,
      e.createdAt < boundOf events (all.take cut) (decide (cut < all.length)) claimedTo) ∧
    ∀ e ∈ all.drop cut,
      boundOf events (all.take cut) (decide (cut < all.length)) claimedTo ≤ e.createdAt := by
  by_cases htrunc : cut < all.length
  · obtain ⟨⟨x, hx, hxb⟩, hle⟩ := exists_boundOf_truncated hids hmem hsplit htrunc claimedTo
    rw [decide_eq_true htrunc]
    exact ⟨fun e he => hxb ▸ hsplit e he x hx, hle⟩
  · rw [decide_eq_false htrunc, List.drop_eq_nil_of_le (Nat.le_of_not_lt htrunc)]
    exact ⟨fun e he => lt_boundOf_whole (hsorted.sublist (List.take_sublist _ _)) he, by simp⟩

/-- What the package keeps is what lies before its bound. -/
theorem anchorPackage_spec {leaves : List Event} {maxSize : Option Nat} {pkg : AnchorPackage}
    (hids : (events.map Event.id).Nodup) (hle : start ≤ stop)
    (hin : ∀ e ∈ events, start ≤ e.createdAt ∧ e.createdAt < stop)
    (h : anchorPackage H events maxSize (some stop) = .ok (pkg, leaves)) :
    start ≤ pkg.toTs ∧ pkg.toTs ≤ stop ∧ leaves.Nodup ∧
      ∀ e, e ∈ leaves ↔ e ∈ events ∧ e.createdAt < pkg.toTs := by
  simp only [anchorPackage] at h
  split at h
  · cases h
  split at h
  · cases h
  split at h
  · cases h
  cases h
  have hperm := ordered_perm hids
  have hsplit := (cutAt_longest (ordered_sorted events) maxSize).whole
  generalize cutAt (ordered events) maxSize = cut at hsplit ⊢
  have hagree := IdsAgree.of_nodup hids
  have hmem : ∀ e, e ∈ ordered events ↔ e ∈ events := fun e => hperm.mem_iff
  obtain ⟨hkept, hdropped⟩ :=
    boundOf_between hagree hmem (ordered_sorted events) hsplit (some stop)
  have hnodup : ((ordered events).take cut).Nodup :=
    (hperm.nodup_iff.mpr (List.Nodup.of_map _ hids)).sublist (List.take_sublist _ _)
  have hbounds : start ≤ boundOf events ((ordered events).take cut)
      (decide (cut < (ordered events).length)) (some stop) ∧
      boundOf events ((ordered events).take cut) (decide (cut < (ordered events).length))
        (some stop) ≤ stop := by
    by_cases htrunc : cut < (ordered events).length
    · obtain ⟨⟨x, hx, hxb⟩, -⟩ := exists_boundOf_truncated hagree hmem hsplit htrunc (some stop)
      have hxin := hin x ((hmem x).mp (List.mem_of_mem_drop hx))
      rw [decide_eq_true htrunc, hxb]
      exact ⟨hxin.1, Nat.le_of_lt hxin.2⟩
    · rw [decide_eq_false htrunc, boundOf_whole fun e he =>
        (hin e ((hmem e).mp (List.mem_of_mem_take he))).2]
      exact ⟨hle, Nat.le_refl _⟩
  refine ⟨hbounds.1, hbounds.2, hnodup, fun e => ⟨fun he => ?_, fun ⟨he, hlt⟩ => ?_⟩⟩
  · exact ⟨(hmem e).mp (List.mem_of_mem_take he), hkept e he⟩
  · rw [← hmem, ← List.take_append_drop cut (ordered events)] at he
    refine (List.mem_append.mp he).resolve_right fun hdrop => ?_
    exact Nat.lt_irrefl _ (Nat.lt_of_lt_of_le hlt (hdropped e hdrop))

/-- Everything fits. -/
theorem cutAt_of_fits {max : Nat} (hsorted : all.Pairwise fun a b => a.createdAt ≤ b.createdAt)
    (hfits : contentSize all ≤ max) : cutAt all (some max) = all.length := by
  have hcut := cutAt_longest hsorted (some max)
  refine Nat.le_antisymm hcut.le (hcut.longest _ (Nat.le_refl _) (by simp [SplitsAt]) ?_)
  intro max' hmax
  cases hmax
  rwa [List.take_length]

theorem anchorPackage_of_fits {max : Nat} {claimedTo : Option Nat} (hne : events ≠ [])
    (hids : (events.map Event.id).Nodup) (hvalid : ∀ e ∈ events, validId e.id = true)
    (hfits : (events.map contentLen).sum ≤ max) : anchorPackage H events (some max) claimedTo
      = .ok (packageOf H events (ordered events) false claimedTo, ordered events) := by
  have hperm := ordered_perm hids
  have hsum : ((ordered events).map contentLen).sum = (events.map contentLen).sum :=
    (hperm.map contentLen).sum_nat
  have hfind : (events.find? fun e => !validId e.id) = none := by
    rw [List.find?_eq_none]
    intro e he
    simp [hvalid e he]
  have hcut : cutAt (ordered events) (some max) = (ordered events).length :=
    cutAt_of_fits (ordered_sorted events) (hsum.trans_le hfits)
  simp only [anchorPackage, if_neg hne, hfind, hcut, Nat.lt_irrefl, false_and, if_false,
    decide_false, List.take_length]

/-! ## A pass -/

/-- How a pass ends: the state file is as before, or the cursor has moved over an empty
window or to the bound of a package. -/
inductive PassRun (H : Bytes → Digest) (a : Args) (p : Pass) (disk : Option ChannelState) :
    Outcome → Prop
  | stays (result : Except String Unit) : PassRun H a p disk ⟨disk, result, none⟩
  | empty {entry : Option String} {result : Except String Unit}
      (hwindow : windowStart a p.now disk < p.now - a.lagSecs)
      (hfetch : fetchWindow p.fetchPage (windowStart a p.now disk) (p.now - a.lagSecs) pageLimit
        = .ok []) :
      PassRun H a p disk ⟨some ⟨p.now - a.lagSecs, entry⟩, result, none⟩
  | anchored {events leaves : List Event} {pkg : AnchorPackage} {entry : Option String}
      {result : Except String Unit}
      (hwindow : windowStart a p.now disk < p.now - a.lagSecs)
      (hfetch : fetchWindow p.fetchPage (windowStart a p.now disk) (p.now - a.lagSecs) pageLimit
        = .ok events)
      (hpkg : anchorPackage H events (some a.maxSize) (some (p.now - a.lagSecs))
        = .ok (pkg, leaves)) :
      PassRun H a p disk ⟨some ⟨pkg.toTs, entry⟩, result, some leaves⟩

theorem runChannel_cases (H : Bytes → Digest) (a : Args) (p : Pass) (disk : Option ChannelState) :
    PassRun H a p disk (runChannel H a p disk) := by
  rw [runChannel]
  dsimp only
  split
  · exact .stays _
  split
  · exact .stays _
  rename_i hwindow
  split
  · exact .stays _
  split
  · exact .stays _
  rename_i events hfetch
  rw [anchorEvents]
  split
  · rename_i hnil
    subst hnil
    rw [commit]
    split
    · exact .empty (by omega) hfetch
    · exact .empty (by omega) hfetch
    · exact .stays _
  split
  · exact .stays _
  rename_i pkg leaves hpkg
  rw [postPackage]
  split
  · exact .stays _
  split
  · exact .stays _
  rw [commit]
  split
  · exact .anchored (by omega) hfetch hpkg
  · exact .anchored (by omega) hfetch hpkg
  · exact .stays _

/-- A pass in which nothing fails. -/
def calmPass (store : List Event) (now : Nat) : Pass where
  now := now
  load := .ok ()
  connect := .ok ()
  fetchPage := relayPages store
  blsExecute := .ok ("", true)
  findEntry _ _ := .ok (some "moult:0")
  save _ := .written
  signCheckpoint := .ok ()

theorem runChannel_calmPass {now : Nat} {disk : Option ChannelState}
    (hwindow : windowStart a now disk < now - a.lagSecs)
    (hfetch : fetchWindow (relayPages store) (windowStart a now disk) (now - a.lagSecs) pageLimit
      = .ok events) (hne : events ≠ []) (hids : (events.map Event.id).Nodup)
    (hvalid : ∀ e ∈ events, validId e.id = true) (hfits : (events.map contentLen).sum ≤ a.maxSize)
    (hin : ∀ e ∈ events, e.createdAt < now - a.lagSecs) : runChannel H a (calmPass store now) disk
      = ⟨some ⟨now - a.lagSecs, some "moult:0"⟩, .ok (), some (ordered events)⟩ := by
  have hto : boundOf events (ordered events) false (some (now - a.lagSecs)) = now - a.lagSecs :=
    boundOf_whole fun e he => hin e ((ordered_perm hids).mem_iff.mp he)
  simp only [runChannel, calmPass, if_neg (Nat.not_le.mpr hwindow), hfetch, anchorEvents, if_neg hne,
    anchorPackage_of_fits hne hids hvalid hfits, postPackage, findLoop, commit, Outcome.thenSign,
    packageOf, hto]

/-- The window of the pass is fetched as a whole. -/
def Whole (a : Args) (store : List Event) (disk : Option ChannelState) (p : Pass) : Prop :=
  WalkWhole store p.fetchPage (windowStart a p.now disk) pageLimit maxPages (p.now - a.lagSecs)

/-- A pass that moves the cursor collects exactly what the cursor moves over. -/
theorem runChannel_collected {p : Pass} {disk : Option ChannelState}
    (hids : (store.map Event.id).Nodup) (hserves : Serves store p.fetchPage)
    (hwhole : Whole a store disk p) :
    ((runChannel H a p disk).disk = disk ∧ (runChannel H a p disk).leaves = none) ∨
    ∃ st, (runChannel H a p disk).disk = some st ∧ windowStart a p.now disk ≤ st.nextFromTs ∧
      Collected store (windowStart a p.now disk) st.nextFromTs
        ((runChannel H a p disk).leaves.getD []) := by
  have hrun := runChannel_cases H a p disk
  generalize runChannel H a p disk = o at hrun ⊢
  cases hrun with
  | stays result => exact .inl ⟨rfl, rfl⟩
  | empty hwindow hfetch =>
    exact .inr ⟨_, rfl, Nat.le_of_lt hwindow,
      fetchWindow_collected hserves (Nat.le_of_lt hwindow) hwhole hfetch⟩
  | @anchored events leaves pkg entry result hwindow hfetch hpkg =>
    have hevents := fetchWindow_collected hserves (Nat.le_of_lt hwindow) hwhole hfetch
    have hevids : (events.map Event.id).Nodup := by
      refine hevents.nodup.map_on fun x hx y hy hid => ?_
      exact List.inj_on_of_nodup_map hids ((hevents.mem x).mp hx).1 ((hevents.mem y).mp hy).1 hid
    obtain ⟨hge, hle, hnodup, hmem⟩ := anchorPackage_spec hevids (Nat.le_of_lt hwindow)
      (fun e he => ((hevents.mem e).mp he).2) hpkg
    refine .inr ⟨_, rfl, hge, hnodup, fun e => ?_⟩
    rw [Option.getD_some, hmem, hevents.mem]
    constructor
    · rintro ⟨⟨hst, hlo, _⟩, hhi⟩
      exact ⟨hst, hlo, hhi⟩
    · rintro ⟨hst, hlo, hhi⟩
      exact ⟨⟨hst, hlo, by dsimp only at hhi; omega⟩, hhi⟩

/-! ## Runs of passes -/

/-- The state file, the start of the first window that moved the cursor, and the leaves of
the packages that did, in order. -/
structure Progress where
  disk : Option ChannelState
  start : Option Nat
  packages : List (List Event)

def Progress.init (disk : Option ChannelState) : Progress :=
  ⟨disk, disk.map ChannelState.nextFromTs, []⟩

def Progress.pass (H : Bytes → Digest) (a : Args) (g : Progress) (p : Pass) : Progress :=
  let o := runChannel H a p g.disk
  { disk := o.disk
    start := g.start.or (o.disk.map fun _ => windowStart a p.now g.disk)
    packages := g.packages ++ o.leaves.toList }

/-- The runs over a store that grows from the cursor on. The passes satisfy `ok`. -/
inductive Reaches (H : Bytes → Digest) (a : Args)
    (ok : List Event → Option ChannelState → Pass → Prop) : List Event → Progress → Prop
  | init {store : List Event} (disk : Option ChannelState) (hids : (store.map Event.id).Nodup) :
      Reaches H a ok store (.init disk)
  | pass {store : List Event} {g : Progress} {p : Pass} (hrun : Reaches H a ok store g)
      (hserves : Serves store p.fetchPage) (hok : ok store g.disk p) :
      Reaches H a ok store (g.pass H a p)
  | gain {store store' : List Event} {g : Progress} (hrun : Reaches H a ok store g)
      (hids : (store'.map Event.id).Nodup) (hsub : ∀ e ∈ store, e ∈ store')
      (hnew : ∀ e ∈ store', e ∉ store → ∀ st, g.disk = some st → st.nextFromTs ≤ e.createdAt) :
      Reaches H a ok store' g

/-- The packages hold exactly what the cursor has moved over. -/
structure Covered (store : List Event) (g : Progress) : Prop where
  ids : (store.map Event.id).Nodup
  fresh : g.disk = none → g.start = none ∧ g.packages = []
  exact : ∀ st, g.disk = some st → ∃ first, g.start = some first ∧ first ≤ st.nextFromTs ∧
    Collected store first st.nextFromTs g.packages.flatten

variable {store : List Event} {g : Progress} {n : Nat}

theorem Covered.init (disk : Option ChannelState) (hids : (store.map Event.id).Nodup) :
    Covered store (.init disk) where
  ids := hids
  fresh := by
    rintro (rfl : disk = none)
    exact ⟨rfl, rfl⟩
  exact := by
    rintro st (rfl : disk = some st)
    exact ⟨st.nextFromTs, rfl, Nat.le_refl _, Collected.empty store st.nextFromTs⟩

/-- Without a state file the window of the pass is the first one, otherwise it follows on
what is covered. -/
theorem Covered.pass {p : Pass} (h : Covered store g) (hserves : Serves store p.fetchPage)
    (hwhole : Whole a store g.disk p) : Covered store (g.pass H a p) := by
  rcases runChannel_collected (H := H) h.ids hserves hwhole with
    ⟨hdisk, hleaves⟩ | ⟨st, hdisk, hle, hnew⟩
  · have hsame : (g.pass H a p).packages = g.packages := by simp [Progress.pass, hleaves]
    refine ⟨h.ids, fun hnone => ?_, fun st hst => ?_⟩
    · obtain ⟨hs, hp⟩ := h.fresh (hdisk.symm.trans hnone)
      refine ⟨?_, hsame.trans hp⟩
      have hnone' : (runChannel H a p g.disk).disk = none := hnone
      simp [Progress.pass, hs, hnone']
    · obtain ⟨first, hfirst, hfle, hcov⟩ := h.exact st (hdisk.symm.trans hst)
      refine ⟨first, by simp [Progress.pass, hfirst], hfle, ?_⟩
      rw [hsame]
      exact hcov
  · have hpk : (g.pass H a p).packages.flatten
        = g.packages.flatten ++ (runChannel H a p g.disk).leaves.getD [] := by
      cases hl : (runChannel H a p g.disk).leaves <;> simp [Progress.pass, hl]
    refine ⟨h.ids, fun hnone => ?_, fun st' hst' => ?_⟩
    · cases hdisk.symm.trans hnone
    · obtain rfl : st = st' := Option.some.inj (hdisk.symm.trans hst')
      cases hg : g.disk with
      | none =>
        obtain ⟨hs, hp⟩ := h.fresh hg
        refine ⟨windowStart a p.now g.disk, by simp [Progress.pass, hs, hdisk], hle, ?_⟩
        rw [hpk, hp]
        exact hnew
      | some old =>
        obtain ⟨first, hfirst, hfle, hcov⟩ := h.exact old hg
        have hstart : windowStart a p.now g.disk = old.nextFromTs := by rw [hg, windowStart]
        rw [hstart] at hle hnew
        refine ⟨first, by simp [Progress.pass, hfirst], Nat.le_trans hfle hle, ?_⟩
        have hboth := hnew.append hfle hle hcov
        rw [hpk]
        exact ⟨List.nodup_append_comm.mp hboth.nodup, fun e => by
          rw [List.mem_append, or_comm, ← List.mem_append, hboth.mem]⟩

/-- New events lie at or after the cursor, outside of what is covered. -/
theorem Covered.gain {store' : List Event} (h : Covered store g)
    (hids : (store'.map Event.id).Nodup) (hsub : ∀ e ∈ store, e ∈ store')
    (hnew : ∀ e ∈ store', e ∉ store → ∀ st, g.disk = some st → st.nextFromTs ≤ e.createdAt) :
    Covered store' g := by
  refine ⟨hids, h.fresh, fun st hst => ?_⟩
  obtain ⟨first, hfirst, hle, hcov⟩ := h.exact st hst
  refine ⟨first, hfirst, hle, hcov.nodup, fun e => ?_⟩
  rw [hcov.mem]
  constructor
  · rintro ⟨he, hb⟩
    exact ⟨hsub e he, hb⟩
  · rintro ⟨he, hb⟩
    refine ⟨?_, hb⟩
    by_contra hout
    have := hnew e he hout st hst
    omega

theorem Reaches.covered (h : Reaches H a (Whole a) store g) : Covered store g := by
  induction h with
  | init disk hids => exact .init disk hids
  | pass _ hserves hok ih => exact ih.pass hserves hok
  | gain _ hids hsub hnew ih => exact ih.gain hids hsub hnew

/-- In a run whose passes fetch their windows as a whole, an event between the first window
and the cursor is a leaf of exactly one of the packages. -/
theorem anchored_once {H : Bytes → Digest} {a : Args} {store : List Event} {g : Progress}
    {st : ChannelState} (hrun : Reaches H a (Whole a) store g) (hst : g.disk = some st) :
    ∃ first, g.start = some first ∧ ∀ e ∈ store, first ≤ e.createdAt →
      e.createdAt < st.nextFromTs → g.packages.flatten.count e = 1 := by
  obtain ⟨first, hfirst, -, hcov⟩ := hrun.covered.exact st hst
  refine ⟨first, hfirst, fun e he hge hlt => ?_⟩
  exact List.count_eq_one_of_mem hcov.nodup ((hcov.mem e).mpr ⟨he, hge, hlt⟩)

/-! ## A burst -/

/-- Message `n` of a second. -/
def burstEvent (n : Nat) : Event where
  id := hexEncode (List.replicate 32 (UInt8.ofNat n))
  pubkey := ""
  createdAt := 10
  kind := 9
  tags := []
  content := ""
  sig := ""

def burst (n : Nat) : List Event := (List.range n).map burstEvent

def burstArgs : Args := ⟨1, 0, 60000⟩

theorem burst_ids (hn : n ≤ 256) : ((burst n).map Event.id).Nodup := by
  rw [burst, List.map_map]
  refine List.Nodup.map_on (fun x hx y hy hxy => ?_) List.nodup_range
  have hbytes := hexEncode_inj hxy
  have hbyte : UInt8.ofNat x = UInt8.ofNat y := List.replicate_right_injective (by decide) hbytes
  have hnat := congrArg UInt8.toNat hbyte
  rw [List.mem_range] at hx hy
  simp only [UInt8.toNat_ofNat'] at hnat
  omega

theorem burst_createdAt (he : e ∈ burst n) : e.createdAt = 10 := by
  obtain ⟨i, -, rfl⟩ := List.mem_map.mp he
  rfl

theorem isAsciiHexdigit_hexDigit : ∀ n < 16, isAsciiHexdigit (hexDigit n) = true := by decide

theorem validId_hexEncode {b : Bytes} (h : b.length = 32) : validId (hexEncode b) = true := by
  have hlen : (b.flatMap hexPair).length = 64 := by
    simp [List.length_flatMap, hexPair, h]
  have hall : (b.flatMap hexPair).all isAsciiHexdigit = true := by
    simp only [List.all_flatMap, List.all_eq_true]
    intro x _
    have hx := x.toNat_lt
    simp only [hexPair, List.mem_cons, List.not_mem_nil, or_false, forall_eq_or_imp, forall_eq]
    exact ⟨isAsciiHexdigit_hexDigit _ (by omega), isAsciiHexdigit_hexDigit _ (by omega)⟩
  simp only [validId, hexEncode, String.toList_ofList, hlen, hall, decide_true, Bool.and_self]

theorem burst_valid : ∀ e ∈ burst n, validId e.id = true := by
  intro e he
  obtain ⟨i, -, rfl⟩ := List.mem_map.mp he
  exact validId_hexEncode (List.length_replicate ..)

theorem burst_size (h : ∀ e ∈ events, e ∈ burst n) : (events.map contentLen).sum = 0 := by
  refine List.sum_eq_zero fun x hx => ?_
  obtain ⟨e, he, rfl⟩ := List.mem_map.mp hx
  obtain ⟨i, -, rfl⟩ := List.mem_map.mp (h e he)
  rfl

/-- The relay serves the start of the burst, and nothing before its second. -/
theorem relayPages_burst (n since upTo limit : Nat) :
    relayPages (burst n) since upTo limit
      = .ok (if since ≤ 10 ∧ 10 ≤ upTo then (burst n).take limit else []) := by
  have hsorted : (burst n).Pairwise fun a b => b.createdAt ≤ a.createdAt :=
    List.pairwise_of_forall_mem_list fun a ha b hb => by
      rw [burst_createdAt ha, burst_createdAt hb]
  split
  · rename_i hin
    have hall : (burst n).filter (fun e => since ≤ e.createdAt && e.createdAt ≤ upTo) = burst n :=
      List.filter_eq_self.mpr fun e he => by
        rw [burst_createdAt he]
        simp [hin]
    rw [relayPages, hall, hsorted.insertionSort_eq]
  · rename_i hout
    have hnone : (burst n).filter (fun e => since ≤ e.createdAt && e.createdAt ≤ upTo) = [] :=
      List.filter_eq_nil_iff.mpr fun e he => by
        rw [burst_createdAt he]
        simpa using hout
    rw [relayPages, hnone]
    simp

theorem fetchWindow_burst (hn : 0 < n) :
    fetchWindow (relayPages (burst n)) 0 20 pageLimit = .ok ((burst n).take 200) := by
  have hlen : ((burst n).take 200).length = min 200 n := by simp [burst]
  have hne : (burst n).take 200 ≠ [] := by
    rw [← List.length_pos_iff, hlen]
    omega
  obtain ⟨x, hx, hmin⟩ := exists_minTs hne
  rw [burst_createdAt (List.mem_of_mem_take hx)] at hmin
  have hfirst : relayPages (burst n) 0 (20 - 1) 200 = .ok ((burst n).take 200) := by
    rw [relayPages_burst, if_pos (by decide)]
  have hsecond : relayPages (burst n) 0 (10 - 1) 200 = .ok [] := by
    rw [relayPages_burst, if_neg (by decide)]
  -- after a full page the walk goes on before second 10, where there is nothing
  have hrest : fetchLoop (relayPages (burst n)) 0 200 255 10 ((burst n).take 200)
      = .ok ((burst n).take 200) := by
    rw [fetchLoop, if_neg (by decide), hsecond]
    simp
  rw [fetchWindow, maxPages, pageLimit, fetchLoop, if_neg (by decide), hfirst]
  dsimp only
  rw [if_neg hne, List.nil_append, ← hmin, hrest, ite_self]

theorem runChannel_burst (H : Bytes → Digest) (hn : 0 < n) (hmax : n ≤ 256) :
    runChannel H burstArgs (calmPass (burst n) 20) none
      = ⟨some ⟨20, some "moult:0"⟩, .ok (), some (ordered ((burst n).take 200))⟩ := by
  have hsub : ∀ e ∈ (burst n).take 200, e ∈ burst n := fun e he => List.mem_of_mem_take he
  have hids : (((burst n).take 200).map Event.id).Nodup := by
    rw [List.map_take]
    exact (burst_ids hmax).sublist (List.take_sublist _ _)
  refine runChannel_calmPass (by decide) (fetchWindow_burst hn) ?_ hids
    (fun e he => burst_valid e (hsub e he)) ?_ fun e he => ?_
  · simp [burst]
    omega
  · rw [burst_size hsub]
    exact Nat.zero_le _
  · rw [burst_createdAt (List.mem_of_mem_take he)]
    decide

theorem pass_burst (H : Bytes → Digest) (hn : 0 < n) (hmax : n ≤ 256) :
    (Progress.init none).pass H burstArgs (calmPass (burst n) 20)
      = ⟨some ⟨20, some "moult:0"⟩, some 0, [ordered ((burst n).take 200)]⟩ := by
  have hstart : windowStart burstArgs (calmPass (burst n) 20).now none = 0 := by
    simp [windowStart, burstArgs, calmPass]
  simp only [Progress.pass, Progress.init, runChannel_burst H hn hmax, hstart, Option.map_none,
    Option.map_some, Option.none_or, Option.toList_some, List.nil_append]

theorem anchored_once_burst :
    ∃ first, ((Progress.init none).pass sha256 burstArgs (calmPass (burst 3) 20)).start = some first ∧
      ∀ e ∈ burst 3, first ≤ e.createdAt → e.createdAt < 20 →
        ((Progress.init none).pass sha256 burstArgs
          (calmPass (burst 3) 20)).packages.flatten.count e = 1 := by
  have hids : ((burst 3).map Event.id).Nodup := burst_ids (by decide)
  have hserves := serves_relayPages (List.Nodup.of_map _ hids)
  have hwhole : Whole burstArgs (burst 3) none (calmPass (burst 3) 20) :=
    walkWhole_of_short hserves (by decide) 255 20
  have hdisk : ((Progress.init none).pass sha256 burstArgs (calmPass (burst 3) 20)).disk
      = some ⟨20, some "moult:0"⟩ := by rw [pass_burst sha256 (by decide) (by decide)]
  exact anchored_once (.pass (.init none hids) hserves hwhole) hdisk

/-- A second with 201 messages: the page holds 200 of them, and the cursor moves past the
last one. -/
theorem burst_left_out : ∃ (store : List Event) (g : Progress) (st : ChannelState) (first : Nat)
    (e : Event), Reaches sha256 burstArgs (fun _ _ _ => True) store g ∧ g.disk = some st ∧
      g.start = some first ∧ e ∈ store ∧ first ≤ e.createdAt ∧ e.createdAt < st.nextFromTs ∧
      g.packages.flatten.count e = 0 := by
  have hids : ((burst 201).map Event.id).Nodup := burst_ids (by decide)
  have hnodup := List.Nodup.of_map _ hids
  have hrun : Reaches sha256 burstArgs (fun _ _ _ => True) (burst 201)
      ((Progress.init none).pass sha256 burstArgs (calmPass (burst 201) 20)) :=
    .pass (.init none hids) (serves_relayPages hnodup) trivial
  rw [pass_burst sha256 (by decide) (by decide)] at hrun
  refine ⟨burst 201, _, ⟨20, some "moult:0"⟩, 0, burstEvent 200, hrun, rfl, rfl, ?_, Nat.zero_le _,
    by decide, ?_⟩
  · exact List.mem_map_of_mem (List.mem_range.mpr (by decide))
  · have hsplit : burst 201 = burst 200 ++ [burstEvent 200] := by
      rw [burst, List.range_succ, List.map_append]
      rfl
    have htake : (burst 201).take 200 = burst 200 := by
      rw [hsplit]
      exact List.take_left' (by simp [burst])
    have hout : burstEvent 200 ∉ burst 200 := by
      intro hin
      rw [hsplit] at hnodup
      exact (List.disjoint_of_nodup_append hnodup) hin (List.mem_singleton_self _)
    simp only [htake, List.flatten_singleton]
    rw [List.count_eq_zero, (ordered_perm (burst_ids (by decide))).mem_iff]
    exact hout

end LayerSdk.Checkpoint

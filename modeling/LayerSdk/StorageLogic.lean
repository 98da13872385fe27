import LayerSdk.EffectHoare
import LayerSdk.Overlay

/-!
# Reasoning about code on a storage

What a keeper does is stated on the map its storage shows, whatever object
the storage is: `Spec place P p Q R` is a triple for every object that
stores (`Storing`), with conditions on the map. `place` says where the keys
of the code land in that map: in a namespace it puts the prefix in front.

The block's writer, a transaction over it, and a meter or a namespace over
any of these are such objects; so a fact proved once holds at every depth of
nested calls, transactions and namespaces.
-/

namespace LayerSdk

open EffectProg Comp

variable {σ ε α β : Type}

/-! ## Keys in namespaces -/

/-- `encode_length(namespace) ‖ namespace` for a namespace that is not too long. -/
def lengthPrefixed (ns : Bytes) : Bytes :=
  UInt8.ofNat (ns.length / 256) :: UInt8.ofNat (ns.length % 256) :: ns

theorem toLengthPrefixed_eq {ns pre : Bytes} (h : toLengthPrefixed ns = some pre) :
    pre = lengthPrefixed ns ∧ ns.length ≤ 0xFFFF := by
  rw [toLengthPrefixed] at h
  split at h
  · cases h
  · exact ⟨(Option.some.inj h).symm, by omega⟩

theorem toLengthPrefixedNested_eq : ∀ {parts : List Bytes} {pre : Bytes},
    toLengthPrefixedNested parts = some pre → pre = (parts.map lengthPrefixed).flatten
  | [], pre, h => (Option.some.inj h).symm
  | ns :: rest, pre, h => by
    simp only [toLengthPrefixedNested, Option.bind_eq_bind, Option.bind_eq_some_iff] at h
    obtain ⟨a, ha, b, hb, hab⟩ := h
    rw [List.map_cons, List.flatten_cons, ← (toLengthPrefixed_eq ha).1,
      ← toLengthPrefixedNested_eq hb]
    exact (Option.some.inj hab).symm

/-- The two bytes say where a namespace ends. -/
theorem lengthPrefixed_append_inj {a b x y : Bytes} (ha : a.length ≤ 0xFFFF)
    (hb : b.length ≤ 0xFFFF) (h : lengthPrefixed a ++ x = lengthPrefixed b ++ y) :
    a = b ∧ x = y := by
  simp only [lengthPrefixed, List.cons_append, List.cons.injEq] at h
  obtain ⟨hhi, hlo, hrest⟩ := h
  have hhi' := congrArg UInt8.toNat hhi
  have hlo' := congrArg UInt8.toNat hlo
  simp only [UInt8.toNat_ofNat'] at hhi' hlo'
  have hlen : a.length = b.length := by omega
  exact List.append_inj hrest hlen

/-! ## Objects that store -/

/-- A read shows the map and changes nothing; a write is made, or refused with
nothing changed. -/
structure Storing (h : StorageObj σ) (place : Bytes → Bytes) (view : σ → Store) : Prop where
  get : ∀ {m key s s' m' r}, h (.get m key) s = some (s', m', r) →
    s' = s ∧ ∀ v, r = .ok v → v = (view s)[place key]?
  range : ∀ {m start stop order s s' r}, h (.range m start stop order) s = some (s', r) → s' = s
  set : ∀ {m key value s s' m' r}, h (.set m key value) s = some (s', m', r) →
    (r = .ok () ∧ view s' = OrdMap.update (view s) (place key) (some value)) ∨
      ((∃ e, r = .error e) ∧ view s' = view s)
  remove : ∀ {m key s s' m' r}, h (.remove m key) s = some (s', m', r) →
    (r = .ok () ∧ view s' = OrdMap.update (view s) (place key) none) ∨
      ((∃ e, r = .error e) ∧ view s' = view s)

/-- An answer that came through a wrapper without fields of its own. -/
theorem stack_unit_cases {S T : Sig} {w : Wrapper S T Unit} {h : Handler T σ} {op : S.Op}
    {s : σ} {x' : Unit × σ} {r : S.Res op} (hop : stack w h op ((), s) = some (x', r)) :
    run h (w op ()) s = some (x'.2, ((), r)) := by
  obtain ⟨⟨s₁, u, r₁⟩, hrun, heq⟩ := Option.map_eq_some_iff.mp hop
  obtain ⟨rfl, rfl⟩ := heq
  exact hrun

theorem run_perform_pure {T : Sig} {h : Handler T σ} {op : T.Op} {α : Type} {f : T.Res op → α}
    {s s' : σ} {a : α} (hrun : run h (do
      let r ← perform op
      pure (f r)) s = some (s', a)) : ∃ r, h op s = some (s', r) ∧ a = f r := by
  rw [run_bind, run_perform] at hrun
  obtain ⟨⟨s₁, r⟩, hop, hrest⟩ := Option.bind_eq_some_iff.mp hrun
  cases hrest
  exact ⟨r, hop, rfl⟩

namespace Storing

variable {h : StorageObj σ} {place : Bytes → Bytes} {view : σ → Store}

/-- A write that the meter refused never reached the storage. -/
theorem appMeter (hs : Storing h place view) :
    Storing (stack appMeter h) place (fun x => view x.2) where
  get := by
    rintro m key ⟨⟨⟩, s⟩ x' m' r hop
    obtain ⟨_, hget, ⟨⟩⟩ := run_perform_pure (stack_unit_cases hop)
    obtain ⟨hsame, hr⟩ := hs.get hget
    exact ⟨Prod.ext rfl hsame, hr⟩
  range := by
    rintro m start stop order ⟨⟨⟩, s⟩ x' r hop
    obtain ⟨r', hrange, heq⟩ := run_perform_pure (stack_unit_cases hop)
    exact Prod.ext rfl (hs.range hrange)
  set := by
    rintro m key value ⟨⟨⟩, s⟩ x' m' r hop
    have hrun := stack_unit_cases hop
    simp only [LayerSdk.appMeter] at hrun
    split at hrun
    · rename_i m₁ e hcharge
      obtain ⟨rfl, -, -, rfl⟩ := hrun
      exact .inr ⟨⟨e, rfl⟩, rfl⟩
    · obtain ⟨_, hset, ⟨⟩⟩ := run_perform_pure hrun
      exact hs.set hset
  remove := by
    rintro m key ⟨⟨⟩, s⟩ x' m' r hop
    have hrun := stack_unit_cases hop
    simp only [LayerSdk.appMeter] at hrun
    split at hrun
    · rename_i m₁ e hcharge
      obtain ⟨rfl, -, -, rfl⟩ := hrun
      exact .inr ⟨⟨e, rfl⟩, rfl⟩
    · obtain ⟨_, hremove, ⟨⟩⟩ := run_perform_pure hrun
      exact hs.remove hremove

theorem prefixedStorage (hs : Storing h place view) (pre : Bytes) :
    Storing (stack (prefixedStorage pre) h) (fun key => place (pre ++ key)) (fun x => view x.2) where
  get := by
    rintro m key ⟨⟨⟩, s⟩ x' m' r hop
    obtain ⟨_, hget, ⟨⟩⟩ := run_perform_pure (stack_unit_cases hop)
    obtain ⟨hsame, hr⟩ := hs.get hget
    exact ⟨Prod.ext rfl hsame, hr⟩
  range := by
    rintro m start stop order ⟨⟨⟩, s⟩ x' r hop
    have hrun := stack_unit_cases hop
    simp only [LayerSdk.prefixedStorage, run_bind] at hrun
    obtain ⟨⟨s₁, m₁, r₁⟩, hrange, hrest⟩ := Option.bind_eq_some_iff.mp hrun
    rw [run_perform] at hrange
    have hs₁ : s₁ = x'.2 := (Prod.mk.inj (Option.some.inj hrest)).1
    exact Prod.ext rfl (hs₁ ▸ hs.range hrange)
  set := by
    rintro m key value ⟨⟨⟩, s⟩ x' m' r hop
    obtain ⟨_, hset, ⟨⟩⟩ := run_perform_pure (stack_unit_cases hop)
    exact hs.set hset
  remove := by
    rintro m key ⟨⟨⟩, s⟩ x' m' r hop
    obtain ⟨_, hremove, ⟨⟩⟩ := run_perform_pure (stack_unit_cases hop)
    exact hs.remove hremove

end Storing

/-! ## The objects a block is executed on -/

theorem storing_of_readsAs {h : StorageObj σ} {view : σ → Store} {refuses : GasMeter → Prop}
    (hreads : ReadsAs h view) (hfree : FreeWrites h view refuses) : Storing h id view where
  get := by
    intro m key s s' m' r hop
    obtain ⟨m₁, r₁, hget, hr⟩ := hreads.get m key s
    rw [hop] at hget
    obtain ⟨rfl, rfl, rfl⟩ := hget
    refine ⟨rfl, fun v hv => ?_⟩
    rcases hr with hr | ⟨hr, -⟩
    · rw [hr] at hv
      exact (Except.ok.inj hv).symm
    · rw [hr] at hv
      cases hv
  range := fun hop => hfree.range hop
  set := fun hop => (hfree.set hop).2.imp And.right
    fun hrefused => ⟨⟨_, hrefused.2.1⟩, by rw [hrefused.2.2]⟩
  remove := fun hop => (hfree.remove hop).2.imp And.right
    fun hrefused => ⟨⟨_, hrefused.2.1⟩, by rw [hrefused.2.2]⟩

theorem storing_writerObj (b : Backend) : Storing (writerObj b) id Writer.view :=
  storing_of_readsAs (readsAs_base (.writer b)) (freeWrites_writerObj b)

/-! ## Triples on the map -/

def Spec (place : Bytes → Bytes) (P : Store → Prop) (p : StorageM ε α) (Q : α → Store → Prop)
    (R : ε → Store → Prop) : Prop :=
  ∀ ⦃σ : Type⦄ ⦃h : StorageObj σ⦄ ⦃view : σ → Store⦄, Storing h place view →
    Triple h (fun s => P (view s)) p (fun a s => Q a (view s)) fun e s => R e (view s)

/-- The code keeps `I`, and leaves `J` where it fails. -/
abbrev Keeps (place : Bytes → Bytes) (I J : Store → Prop) (p : StorageM ε α) : Prop :=
  Spec place I p (fun _ => I) fun _ => J

namespace Spec

variable {place : Bytes → Bytes} {P P' : Store → Prop} {Q Q' : α → Store → Prop}
  {Q₂ : β → Store → Prop} {R R' : ε → Store → Prop}

theorem pure {a : α} (hq : ∀ st, P st → Q a st) :
    Spec place P (pure a : StorageM ε α) Q R := fun _ _ _ _ => .pure fun _ => hq _

theorem throw {e : ε} (hr : ∀ st, P st → R e st) :
    Spec place P (throw e : StorageM ε α) Q R := fun _ _ _ _ => .throw fun _ => hr _

theorem panic : Spec place P (Comp.panic : StorageM ε α) Q R := fun _ _ _ _ => .panic

variable {p : StorageM ε α} {key : Bytes}

theorem bind {f : α → StorageM ε β} (hp : Spec place P p Q R)
    (hf : ∀ a, Spec place (Q a) (f a) Q₂ R) : Spec place P (p >>= f) Q₂ R :=
  fun _ _ _ hs => .bind (hp hs) fun a => hf a hs

theorem map {f : α → β} (hp : Spec place P p (fun a => Q₂ (f a)) R) :
    Spec place P (f <$> p) Q₂ R := fun _ _ _ hs => .map (hp hs)

theorem conseq (hp : Spec place P' p Q' R') (hpre : ∀ st, P st → P' st)
    (hok : ∀ a st, Q' a st → Q a st) (herr : ∀ e st, R' e st → R e st) : Spec place P p Q R :=
  fun _ _ _ hs => (hp hs).conseq (fun _ => hpre _) (fun a _ => hok a _) fun e _ => herr e _

theorem post (hp : Spec place P p Q' R) (hok : ∀ a st, Q' a st → Q a st) : Spec place P p Q R :=
  hp.conseq (fun _ h => h) hok fun _ _ h => h

theorem ite {c : Prop} [Decidable c] {q : StorageM ε α} (hp : c → Spec place P p Q R)
    (hq : ¬ c → Spec place P q Q R) : Spec place P (if c then p else q) Q R :=
  fun _ _ _ hs => .ite (fun hc => hp hc hs) fun hc => hq hc hs

theorem ofExcept {x : Except ε α} (hok : ∀ a st, x = .ok a → P st → Q a st)
    (herr : ∀ e st, x = .error e → P st → R e st) :
    Spec place P (Comp.ofExcept x : StorageM ε α) Q R :=
  fun _ _ _ _ => .ofExcept (fun a _ => hok a _) fun e _ => herr e _

theorem of_fact {c : Prop} (hp : c → Spec place P p Q R) :
    Spec place (fun st => c ∧ P st) p Q R := fun _ _ _ hs => .of_fact fun hc => hp hc hs

theorem appMeter (hp : Spec place P p Q R) :
    Spec place P (Comp.under LayerSdk.appMeter p) Q R := fun _ _ _ hs => .under (hp hs.appMeter)

theorem prefixed {ns : Bytes} (hp : Spec (fun key => place (lengthPrefixed ns ++ key)) P p Q R) :
    Spec place P (LayerSdk.prefixed ns p) Q R := by
  rw [LayerSdk.prefixed]
  cases hns : toLengthPrefixed ns with
  | none => exact panic
  | some pre =>
    obtain ⟨rfl, -⟩ := toLengthPrefixed_eq hns
    exact fun _ _ _ hs => .under (hp (hs.prefixedStorage _))

variable [FromGas ε]

theorem get {Q : Option Bytes → Store → Prop} (hok : ∀ st, P st → Q st[place key]? st)
    (herr : ∀ e st, P st → R e st) :
    Spec place P (Storage.get key : StorageM ε (Option Bytes)) Q R := by
  intro σ h view hs m m' s s' r hexec hP
  rw [exec_get] at hexec
  obtain ⟨⟨s₁, m₁, r₁⟩, hget, heq⟩ := Option.map_eq_some_iff.mp hexec
  obtain ⟨rfl, rfl, -⟩ := heq
  obtain ⟨rfl, hr⟩ := hs.get hget
  cases r₁ with
  | ok v =>
    rw [hr v rfl]
    exact hok _ hP
  | error e => exact herr _ _ hP

theorem set {value : Bytes} {Q : Unit → Store → Prop}
    (hok : ∀ st, P st → Q () (OrdMap.update st (place key) (some value)))
    (herr : ∀ e st, P st → R e st) :
    Spec place P (Storage.set key value : StorageM ε Unit) Q R := by
  intro σ h view hs m m' s s' r hexec hP
  rw [exec_set] at hexec
  obtain ⟨⟨s₁, m₁, r₁⟩, hset, heq⟩ := Option.map_eq_some_iff.mp hexec
  obtain ⟨rfl, rfl, -⟩ := heq
  rcases hs.set hset with ⟨rfl, hview⟩ | ⟨⟨e, rfl⟩, hview⟩
  · exact (congrArg (Q ()) hview).mpr (hok _ hP)
  · exact (congrArg (R _) hview).mpr (herr _ _ hP)

theorem remove {Q : Unit → Store → Prop}
    (hok : ∀ st, P st → Q () (OrdMap.update st (place key) none)) (herr : ∀ e st, P st → R e st) :
    Spec place P (Storage.remove key : StorageM ε Unit) Q R := by
  intro σ h view hs m m' s s' r hexec hP
  rw [exec_remove] at hexec
  obtain ⟨⟨s₁, m₁, r₁⟩, hremove, heq⟩ := Option.map_eq_some_iff.mp hexec
  obtain ⟨rfl, rfl, -⟩ := heq
  rcases hs.remove hremove with ⟨rfl, hview⟩ | ⟨⟨e, rfl⟩, hview⟩
  · exact (congrArg (Q ()) hview).mpr (hok _ hP)
  · exact (congrArg (R _) hview).mpr (herr _ _ hP)

/-! ## Typed values -/

variable [FromStd ε] {γ : Type} {i : Item γ}

omit [FromGas ε] in
theorem liftStd {x : Except StdError γ} {Q : γ → Store → Prop}
    (hok : ∀ a st, x = .ok a → P st → Q a st) (herr : ∀ e st, P st → R e st) :
    Spec place P (LayerSdk.liftStd x : StorageM ε γ) Q R := by
  refine ofExcept (fun a st ha hP => hok a st ?_ hP) fun e st _ hP => herr e st hP
  cases x with
  | ok b => simpa [Except.mapError] using ha
  | error e => simp [Except.mapError] at ha

/-- What a load finds under a key. -/
def Found (i : Item γ) (key : Bytes) (st : Store) : Option γ → Prop
  | some x => ∃ b, st[key]? = some b ∧ i.codec.fromJson b = .ok x
  | none => st[key]? = none

theorem mayLoad {Q : Option γ → Store → Prop}
    (hok : ∀ v st, P st → Found i (place i.key) st v → Q v st) (herr : ∀ e st, P st → R e st) :
    Spec place P (i.mayLoad : StorageM ε (Option γ)) Q R := by
  refine bind (Q := fun value st => P st ∧ st[place i.key]? = value)
    (get (fun st hP => ⟨hP, rfl⟩) herr) fun value => ?_
  cases value with
  | none => exact pure fun st hP => hok none st hP.1 hP.2
  | some b =>
    exact map (liftStd (fun x st hx hP => hok (some x) st hP.1 ⟨b, hP.2, hx⟩)
      fun e st hP => herr e st hP.1)

theorem save {x : γ} {Q : Unit → Store → Prop} (hok : ∀ b st, i.codec.toJsonVec x = .ok b → P st →
      Q () (OrdMap.update st (place i.key) (some b))) (herr : ∀ e st, P st → R e st) :
    Spec place P (i.save x : StorageM ε Unit) Q R := by
  refine bind (Q := fun b st => i.codec.toJsonVec x = .ok b ∧ P st)
    (liftStd (fun b st hb hP => ⟨hb, hP⟩) herr) fun b => ?_
  exact set (fun st hP => hok b st hP.1 hP.2) fun e st hP => herr e st hP.2

omit [FromGas ε] [FromStd ε] in
theorem «at» {m : PlusMap γ} {parts : List Bytes} {last : Bytes} {f : Item γ → StorageM ε α}
    (hf : Spec place P (f ⟨((m.ns :: parts).map lengthPrefixed).flatten ++ last, m.codec⟩) Q R) :
    Spec place P (m.at parts last f) Q R := by
  rw [PlusMap.at]
  cases hpath : m.path? parts last with
  | none => exact panic
  | some i =>
    obtain ⟨pre, hpre, rfl⟩ := Option.map_eq_some_iff.mp hpath
    rw [toLengthPrefixedNested_eq hpre]
    exact hf

/-- A change of a value: what was there is replaced by what the action makes of it. -/
theorem updateOption {action : Option γ → StorageM ε γ} {Q : γ → Store → Prop}
    {N : Option γ → γ → Store → Prop}
    (hload : ∀ v, Spec place (fun st => P st ∧ Found i (place i.key) st v) (action v) (N v) R)
    (hok : ∀ v x b st, i.codec.toJsonVec x = .ok b → N v x st →
      Q x (OrdMap.update st (place i.key) (some b))) (herr : ∀ e st, P st → R e st)
    (herr' : ∀ v x e st, N v x st → R e st) : Spec place P (i.updateOption action) Q R := by
  refine bind (Q := fun v st => P st ∧ Found i (place i.key) st v)
    (mayLoad (fun v st hP hv => ⟨hP, hv⟩) herr) fun v => ?_
  refine bind (hload v) fun x => ?_
  exact bind (save (fun b st hb hN => hok v x b st hb hN) fun e st hN => herr' v x e st hN)
    fun _ => pure fun st hQ => hQ

end Spec

end LayerSdk

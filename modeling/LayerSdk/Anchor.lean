import LayerSdk.AppRoot
import LayerSdk.StateSync

/-!
# Which block the trusted root belongs to

The donors choose everything the joiner sees: the advertised height, the
records, and which finality record they return for each height. `Trace` runs
the joiner against arbitrary answers, and the log of a run is all the evidence
there is.

Two facts about the download make the log readable. The questions of each part
are known in advance (`Asks`), so a `Block` answer for `height + 1` can only
belong to the anchor quorum. And the quorum is unanimous: every accepted record
in its log carries the same payload bytes, which are the ones it returns
(`fetchCertifiedPayload_spec`).
-/

namespace LayerSdk

open EffectProg

/-! ## What is asked

Every question of the snapshot download is about snapshots, and every `Block`
question of a payload quorum is about its own height. -/

def PeerOp.isBlock : PeerOp → Prop
  | .block .. => True
  | _ => False

/-- A `Block` question, if it is one, is about `height`. -/
def PeerOp.blockAt (height : Nat) : PeerOp → Prop
  | .block _ h => h = height
  | _ => True

abbrev SyncM.Asks {α : Type} (P : PeerOp → Prop) (p : SyncM α) : Prop :=
  EffectProg.Asks (S := peerSig) P p.run

section Asks

variable {P : PeerOp → Prop} {α : Type}

theorem asks_ask {op : PeerOp} (h : P op) : SyncM.Asks P (ask op) :=
  Asks.bind (Asks.perform h) fun _ => Asks.pure _

theorem asks_throw (e : SyncError) : SyncM.Asks P (throw e : SyncM α) := Asks.pure _

theorem asks_ensure {b : Prop} [Decidable b] (e : SyncError) :
    SyncM.Asks P (ensure b e) := by
  unfold ensure
  split
  · exact Asks.pure _
  · exact asks_throw e

theorem asks_ofOption (e : SyncError) (o : Option α) : SyncM.Asks P (ofOption e o) := by
  cases o with
  | none => exact asks_throw e
  | some x => exact Asks.pure _

theorem asks_outcome {p : SyncM α} (h : SyncM.Asks P p) :
    SyncM.Asks P (outcome p) := by
  change Asks P (Except.ok <$> p.run)
  rw [← bind_pure_comp]
  exact Asks.bind h fun _ => Asks.pure _

variable {peer : String} {H : Bytes → Digest}

theorem asks_connectLoop (h : P (.connectStatesync peer)) :
    ∀ n, SyncM.Asks P (connectLoop peer n)
  | 0 => asks_throw _
  | n + 1 => Asks.except_bind (asks_ask h) fun b => by
    cases b with
    | true => exact Asks.pure _
    | false => exact asks_connectLoop h n

theorem asks_listLoop (h : P (.listSnapshots peer)) :
    ∀ n, SyncM.Asks P (listLoop peer n)
  | 0 => asks_throw _
  | n + 1 => Asks.except_bind (asks_ask h) fun o => by
    cases o with
    | some snaps => exact Asks.pure _
    | none => exact asks_listLoop h n

theorem asks_fetchChunks {m : SnapshotMeta} {maxBytes : Nat}
    (h : ∀ i, P (.loadSnapshotChunk peer m.height m.format i)) :
    ∀ (is : List Nat) (total : Nat), SyncM.Asks P (fetchChunks H peer m maxBytes is total)
  | [], _ => Asks.pure _
  | i :: rest, total => by
    refine Asks.except_bind (asks_ask (h i)) fun r => ?_
    refine Asks.except_bind (asks_ofOption _ r) fun chunk => ?_
    refine Asks.except_bind (asks_ensure _) fun _ => ?_
    refine Asks.except_bind (asks_ensure _) fun _ => ?_
    split
    · exact asks_throw _
    · exact Asks.except_bind (asks_fetchChunks h rest _) fun _ => Asks.pure _

theorem asks_fetchSnapshotFrom (peer : String) (maxBytes : Nat) :
    SyncM.Asks (fun op => ¬ op.isBlock) (fetchSnapshotFrom H peer maxBytes) := by
  refine Asks.except_bind (asks_connectLoop not_false 6) fun _ => ?_
  refine Asks.except_bind (asks_listLoop not_false 6) fun snaps => ?_
  refine Asks.except_bind (asks_ofOption _ _) fun m => ?_
  refine Asks.except_bind (asks_ofOption _ _) fun root => ?_
  refine Asks.except_bind (asks_ensure _) fun _ => ?_
  exact Asks.except_bind (asks_fetchChunks (fun _ => not_false) _ 0) fun _ => Asks.pure _

theorem asks_fetchSnapshotLoop {maxBytes : Nat} :
    ∀ (peers : List String) (errs : List (String × SyncError)),
      SyncM.Asks (fun op => ¬ op.isBlock) (fetchSnapshotLoop H maxBytes peers errs)
  | [], _ => asks_throw _
  | peer :: rest, errs => by
    refine Asks.except_bind (asks_outcome (asks_fetchSnapshotFrom peer maxBytes)) fun r => ?_
    cases r with
    | ok snap => exact Asks.pure _
    | error e => exact asks_fetchSnapshotLoop rest _

theorem asks_blockLoop {height : Nat} :
    ∀ n, SyncM.Asks (PeerOp.blockAt height) (blockLoop peer height n)
  | 0 => asks_throw _
  | n + 1 => Asks.except_bind (asks_ask rfl) fun r => by
    match r with
    | .ok block => exact Asks.pure _
    | .error .notFound => exact asks_blockLoop n
    | .error .other => exact asks_throw _

theorem asks_fetchBlockRetry (peer : String) (height : Nat) :
    SyncM.Asks (PeerOp.blockAt height) (fetchBlockRetry peer height) :=
  Asks.except_bind (asks_ask trivial) fun b => by
    cases b with
    | true => exact asks_blockLoop 12
    | false => exact asks_throw _

theorem asks_collectPayloads {accept : QueryBlockResponse → Bool} {height : Nat} :
    ∀ peers, SyncM.Asks (PeerOp.blockAt height) (collectPayloads accept height peers)
  | [] => Asks.pure _
  | peer :: rest => by
    refine Asks.except_bind (asks_outcome (asks_fetchBlockRetry peer height)) fun r => ?_
    refine Asks.except_bind (asks_collectPayloads rest) fun others => ?_
    cases r with
    | ok block =>
      dsimp only
      split <;> exact Asks.pure _
    | error e => exact Asks.pure _

theorem asks_withContext (f : SyncError → SyncError) (r : Except SyncError α) :
    SyncM.Asks P (withContext f r) := Asks.pure _

theorem asks_tipBytes (ss : StateSyncConfig) (check : FinalityCheck) (snap : FetchedSnapshot) :
    SyncM.Asks (PeerOp.blockAt snap.height) (tipBytes ss check snap) := by
  refine Asks.except_bind (asks_outcome (Asks.except_bind (asks_collectPayloads _)
    fun _ => asks_withContext _ _)) fun r => ?_
  cases r with
  | ok b => exact Asks.pure _
  | error e =>
    dsimp only
    split
    · exact Asks.except_bind (asks_collectPayloads _) fun _ => asks_withContext _ _
    · exact asks_throw _

end Asks

/-! ## The quorum -/

/-- A donor answered the question for block `height` with `block`. -/
def Served (log : List (Exchange peerSig)) (height : Nat) (block : QueryBlockResponse) : Prop :=
  ∃ peer, (⟨.block peer height, .ok block⟩ : Exchange peerSig) ∈ log

variable {height : Nat} {block : QueryBlockResponse} {α : Type} {log : List (Exchange peerSig)}
  {check : FinalityCheck} {ss : StateSyncConfig} {H : Bytes → Digest} {chainId : String}

theorem served_append {l₁ l₂ : List (Exchange peerSig)} :
    Served (l₁ ++ l₂) height block ↔ Served l₁ height block ∨ Served l₂ height block := by
  simp only [Served, List.mem_append, exists_or]

theorem not_served_nil : ¬ Served [] height block := by
  rintro ⟨_, h⟩
  cases h

/-- Where no question is about a block, no block is served. -/
theorem not_served_of_asks {p : Prog peerSig α}
    (hp : Asks (S := peerSig) (fun op => ¬ op.isBlock) p) {a : α} (h : Trace p log a) :
    ¬ Served log height block := by
  rintro ⟨peer, hmem⟩
  exact hp h _ hmem trivial

/-- Where every question is about the block at `height`, no other is served. -/
theorem served_height_of_asks {p : Prog peerSig α} {height' : Nat}
    (hp : Asks (S := peerSig) (PeerOp.blockAt height) p) {a : α} (h : Trace p log a)
    (hserved : Served log height' block) : height' = height := by
  obtain ⟨peer, hmem⟩ := hserved
  exact hp h _ hmem

theorem trace_ask {op : PeerOp} {r : Except SyncError (PeerOp.Res op)}
    (h : Trace (ask op).run log r) : ∃ x, r = .ok x ∧ log = [⟨op, x⟩] := by
  obtain ⟨l₁, l₂, x, rfl, h₁, h₂⟩ := trace_bind (p := perform (S := peerSig) op) h
  obtain ⟨rfl, rfl⟩ := trace_pure h₂
  exact ⟨x, rfl, by simpa using trace_perform h₁⟩

theorem trace_ensure {b : Prop} [Decidable b] {e : SyncError} {x : Unit}
    (h : Trace (ensure b e).run log (.ok x)) : log = [] ∧ b := by
  unfold ensure at h
  split at h
  · exact ⟨(trace_pure h).1, ‹b›⟩
  · cases (trace_pure h).2

theorem trace_ofOption {e : SyncError} {o : Option α} {x : α}
    (h : Trace (ofOption e o).run log (.ok x)) : log = [] ∧ o = some x := by
  cases o with
  | none => cases (trace_pure h).2
  | some y =>
    obtain ⟨rfl, heq⟩ := trace_pure h
    cases heq
    exact ⟨rfl, rfl⟩

theorem trace_outcome {p : SyncM α} {r : Except SyncError (Except SyncError α)}
    (h : Trace (outcome p).run log r) : ∃ x, r = .ok x ∧ Trace p.run log x := by
  have h' : Trace (p.run >>= fun x => pure (Except.ok x)) log r := h
  obtain ⟨l₁, l₂, x, rfl, h₁, h₂⟩ := trace_bind h'
  obtain ⟨rfl, rfl⟩ := trace_pure h₂
  exact ⟨x, rfl, by simpa using h₁⟩

/-- The only record a peer serves in the loop is the one it returns. -/
theorem blockLoop_spec {peer : String} : ∀ (n : Nat) {log : List (Exchange peerSig)}
    {r : Except SyncError QueryBlockResponse}, Trace (blockLoop peer height n).run log r →
      ∀ block, Served log height block ↔ r = .ok block
  | 0, log, r, h, block => by
    obtain ⟨rfl, rfl⟩ := trace_pure h
    simp [not_served_nil]
  | n + 1, log, r, h, block => by
    rcases trace_except_bind h with ⟨l₁, l₂, x, rfl, h₁, h₂⟩ | ⟨e, h₁, -⟩
    · obtain ⟨y, hy, rfl⟩ := trace_ask h₁
      cases hy
      match x, h₂ with
      | .ok b, h₂ =>
        obtain ⟨rfl, rfl⟩ := trace_pure h₂
        constructor
        · rintro ⟨p, hmem⟩
          cases List.mem_singleton.mp hmem
          rfl
        · rintro ⟨⟩
          exact ⟨peer, List.mem_singleton.mpr rfl⟩
      | .error .notFound, h₂ =>
        rw [served_append, blockLoop_spec n h₂ block]
        refine or_iff_right ?_
        rintro ⟨p, hmem⟩
        cases List.mem_singleton.mp hmem
      | .error .other, h₂ =>
        obtain ⟨rfl, rfl⟩ := trace_pure h₂
        refine iff_of_false ?_ (by rintro ⟨⟩)
        rintro ⟨p, hmem⟩
        cases List.mem_singleton.mp hmem
    · obtain ⟨_, ⟨⟩, _⟩ := trace_ask h₁

theorem fetchBlockRetry_spec {peer : String} {r : Except SyncError QueryBlockResponse}
    (h : Trace (fetchBlockRetry peer height).run log r) (block : QueryBlockResponse) :
    Served log height block ↔ r = .ok block := by
  rcases trace_except_bind h with ⟨l₁, l₂, x, rfl, h₁, h₂⟩ | ⟨e, h₁, -⟩
  · obtain ⟨y, -, rfl⟩ := trace_ask h₁
    have hconnect : ¬ Served [⟨.connectLightClient peer, y⟩] height block := by
      rintro ⟨p, hmem⟩
      cases List.mem_singleton.mp hmem
    rw [served_append, or_iff_right hconnect]
    cases x with
    | true => exact blockLoop_spec 12 h₂ block
    | false =>
      obtain ⟨rfl, rfl⟩ := trace_pure h₂
      exact iff_of_false not_served_nil (by rintro ⟨⟩)
  · obtain ⟨_, ⟨⟩, _⟩ := trace_ask h₁

/-- What is collected is exactly what was served and accepted. -/
theorem collectPayloads_spec {accept : QueryBlockResponse → Bool} :
    ∀ (peers : List String) {log : List (Exchange peerSig)}
      {r : Except SyncError (List (String × Bytes))},
      Trace (collectPayloads accept height peers).run log r → ∃ payloads, r = .ok payloads ∧
        ∀ bytes, (∃ x ∈ payloads, x.2 = bytes) ↔
          ∃ block, Served log height block ∧ accept block = true ∧ block.payloadBytes = bytes
  | [], log, r, h => by
    obtain ⟨rfl, rfl⟩ := trace_pure h
    exact ⟨[], rfl, fun bytes => by simp [not_served_nil]⟩
  | peer :: rest, log, r, h => by
    rcases trace_except_bind h with ⟨l₁, l₂, x, rfl, h₁, h₂⟩ | ⟨e, h₁, -⟩
    · obtain ⟨y, hy, hfetch⟩ := trace_outcome h₁
      cases hy
      have hblock := fetchBlockRetry_spec hfetch
      rcases trace_except_bind h₂ with ⟨l₃, l₄, others, rfl, h₃, h₄⟩ | ⟨e, h₃, -⟩
      · obtain ⟨others', ho, hothers⟩ := collectPayloads_spec rest h₃
        cases ho
        -- the answer adds its payload when it is an accepted record, and nothing otherwise
        cases x with
        | ok b =>
          by_cases hb : accept b = true
          · simp only [hb, if_true] at h₄
            obtain ⟨rfl, rfl⟩ := trace_pure h₄
            refine ⟨_, rfl, fun bytes => ?_⟩
            simp only [List.append_nil, served_append, hblock, or_and_right, exists_or,
              List.mem_cons, exists_eq_left, ← hothers, Except.ok.injEq]
            simp [hb]
          · simp only [hb, if_false, Bool.false_eq_true] at h₄
            obtain ⟨rfl, rfl⟩ := trace_pure h₄
            refine ⟨_, rfl, fun bytes => ?_⟩
            simp only [List.append_nil, served_append, hblock, or_and_right, exists_or,
              ← hothers, Except.ok.injEq]
            simp [hb]
        | error e =>
          obtain ⟨rfl, rfl⟩ := trace_pure h₄
          refine ⟨_, rfl, fun bytes => ?_⟩
          simp only [List.append_nil, served_append, hblock, or_and_right, exists_or,
            ← hothers]
          simp
      · obtain ⟨_, ho, -⟩ := collectPayloads_spec rest h₃
        cases ho
    · obtain ⟨_, ⟨⟩, _⟩ := trace_outcome h₁

/-- An anchor is the payload of every peer that served one. -/
theorem selectAnchor_ok {payloads : List (String × Bytes)} {minAgree : Nat} {bytes : Bytes}
    (h : selectAnchor payloads minAgree = .ok bytes) :
    (∃ x ∈ payloads, x.2 = bytes) ∧ ∀ x ∈ payloads, x.2 = bytes := by
  cases payloads with
  | nil => cases h
  | cons first rest =>
    rw [selectAnchor] at h
    cases hfind : rest.find? fun x => x.2 ≠ first.2 with
    | some x =>
      simp only [hfind] at h
      cases h
    | none =>
      have hsame : ∀ x ∈ rest, x.2 = first.2 := by simpa using hfind
      simp only [hfind] at h
      split at h
      · cases h
        exact ⟨⟨first, List.mem_cons_self, rfl⟩, List.forall_mem_cons.mpr ⟨rfl, hsame⟩⟩
      · cases h

/-- The certified payload is one that was served, and the only one. -/
theorem fetchCertifiedPayload_spec {peers : List String} {minAgree : Nat} {bytes : Bytes}
    (h : Trace (fetchCertifiedPayload check peers height minAgree).run log (.ok bytes)) :
    (∃ block, Served log height block ∧ (check block).isOk = true ∧ block.payloadBytes = bytes) ∧
      ∀ block, Served log height block → (check block).isOk = true →
        block.payloadBytes = bytes := by
  rcases trace_except_bind h with ⟨l₁, l₂, payloads, rfl, h₁, h₂⟩ | ⟨e, h₁, he⟩
  · obtain ⟨_, ho, hspec⟩ := collectPayloads_spec peers h₁
    cases ho
    obtain ⟨rfl, hselect⟩ := trace_pure h₂
    cases hanchor : selectAnchor payloads minAgree with
    | error e => rw [hanchor] at hselect; cases hselect
    | ok b =>
      rw [hanchor] at hselect
      cases hselect
      obtain ⟨hmem, hall⟩ := selectAnchor_ok hanchor
      rw [List.append_nil]
      refine ⟨(hspec bytes).mp hmem, fun block hserved hok => ?_⟩
      obtain ⟨x, hx, heq⟩ := (hspec block.payloadBytes).mpr ⟨block, hserved, hok, rfl⟩
      rw [← heq]
      exact hall x hx
  · cases he

/-! ## The adoption -/

/-- The log has a certified record under `height`, every certified record there
carries `bytes`, and `bytes` is `payload`. -/
structure Anchored (check : FinalityCheck) (log : List (Exchange peerSig)) (height : Nat)
    (payload : BlockPayload) : Prop where
  served : ∃ block, Served log height block ∧ (check block).isOk = true ∧
    BlockPayload.fromBytes block.payloadBytes = some payload
  unanimous : ∀ block, Served log height block → (check block).isOk = true →
    BlockPayload.fromBytes block.payloadBytes = some payload

/-- A trusted root is a certified one, or the fallback's. -/
theorem trustedRoot_spec {snap : FetchedSnapshot} {root : Digest} {certified : Bool}
    (h : Trace (trustedRoot ss check snap).run log (.ok (root, certified))) :
    certified = false ∧ ss.haltedChainAnchor = true ∨ certified = true ∧
      ∃ payload, Anchored check log (snap.height + 1) payload ∧ payload.stateRoot = root := by
  obtain ⟨l₁, l₂, x, rfl, h₁, h₂⟩ := trace_except_bind_ok h
  obtain ⟨_, hx, hfetch⟩ := trace_outcome h₁
  cases hx
  cases x with
  | ok bytes =>
    obtain ⟨l₃, l₄, payload, rfl, h₃, h₄⟩ := trace_except_bind_ok h₂
    obtain ⟨l₅, l₆, u, rfl, h₅, h₆⟩ := trace_except_bind_ok h₄
    obtain ⟨rfl, hpayload⟩ := trace_ofOption h₃
    obtain ⟨rfl, -⟩ := trace_ensure h₅
    obtain ⟨rfl, heq⟩ := trace_pure h₆
    cases heq
    obtain ⟨⟨block, hserved, hok, rfl⟩, hall⟩ := fetchCertifiedPayload_spec hfetch
    refine .inr ⟨rfl, payload, ?_, rfl⟩
    simp only [List.append_nil]
    exact ⟨⟨block, hserved, hok, hpayload⟩, fun b hb hbok => (hall b hb hbok).symm ▸ hpayload⟩
  | error e =>
    dsimp only at h₂
    split at h₂
    · obtain ⟨_, _, _, rfl, -, h₃⟩ := trace_except_bind_ok h₂
      obtain ⟨_, _, _, rfl, -, h₄⟩ := trace_except_bind_ok h₃
      obtain ⟨_, _, _, rfl, -, h₅⟩ := trace_except_bind_ok h₄
      cases (trace_pure h₅).2
      exact .inl ⟨rfl, ‹_›⟩
    · cases (trace_pure h₂).2

/-- Nothing before or after the anchor quorum asks for block `height + 1`. -/
theorem Anchored.widen {payload : BlockPayload} {l₁ l₂ l₃ : List (Exchange peerSig)}
    (h : Anchored check l₂ height payload) (hbefore : ∀ block, ¬ Served l₁ height block)
    (hafter : ∀ block, ¬ Served l₃ height block) :
    Anchored check (l₁ ++ (l₂ ++ l₃)) height payload := by
  have hserved : ∀ block, Served (l₁ ++ (l₂ ++ l₃)) height block ↔ Served l₂ height block := by
    intro block
    rw [served_append, served_append, or_iff_right (hbefore block), or_iff_left (hafter block)]
  exact ⟨h.served.imp fun block hb => ⟨(hserved block).mpr hb.1, hb.2⟩,
    fun block hb => h.unanimous block ((hserved block).mp hb)⟩

theorem fetchAdoption_spec {call : Adoption}
    (h : Trace (fetchAdoption H ss chainId check).run log (.ok call)) :
    call.certified = false ∧ ss.haltedChainAnchor = true ∨ call.certified = true ∧
      ∃ payload, Anchored check log (call.block.height + 1) payload ∧
        payload.stateRoot = call.expectedRoot := by
  obtain ⟨l₁, l, _, rfl, h₁, rest₁⟩ := trace_except_bind_ok h
  obtain ⟨l₂, l, _, rfl, h₂, rest₂⟩ := trace_except_bind_ok rest₁
  obtain ⟨l₃, l, snap, rfl, h₃, rest₃⟩ := trace_except_bind_ok rest₂
  obtain ⟨l₄, l, _, rfl, h₄, rest₄⟩ := trace_except_bind_ok rest₃
  obtain ⟨l₅, l, ⟨root, certified⟩, rfl, h₅, rest₅⟩ := trace_except_bind_ok rest₄
  obtain ⟨l₆, l, tip, rfl, h₆, rest₆⟩ := trace_except_bind_ok rest₅
  obtain ⟨l₇, l, tipPayload, rfl, h₇, rest₇⟩ := trace_except_bind_ok rest₆
  obtain ⟨l₈, l, _, rfl, h₈, rest₈⟩ := trace_except_bind_ok rest₇
  obtain ⟨rfl, -⟩ := trace_ensure h₁
  obtain ⟨rfl, -⟩ := trace_ensure h₂
  obtain rfl : l₄ = [] := by
    unfold rejectOverflow at h₄
    split at h₄
    · obtain ⟨_, _, _, _, hcrash, _⟩ := trace_bind h₄
      exact hcrash.elim
    · exact (trace_pure h₄).1
  obtain ⟨rfl, -⟩ := trace_ofOption h₇
  obtain ⟨rfl, -⟩ := trace_ensure h₈
  obtain ⟨rfl, heq⟩ := trace_pure rest₈
  cases heq
  refine (trustedRoot_spec h₅).imp_right ?_
  rintro ⟨hcertified, payload, hanchored, hroot⟩
  refine ⟨hcertified, payload, ?_, hroot⟩
  simp only [List.nil_append, List.append_nil]
  refine hanchored.widen (fun block => not_served_of_asks (asks_fetchSnapshotLoop _ _) h₃)
    fun block hserved => ?_
  have := served_height_of_asks (asks_tipBytes ss check snap) h₆ hserved
  omega

/-- Without the halted-chain fallback every trusted root is a certified one. -/
theorem fetchAdoption_not_halted {call : Adoption}
    (h : Trace (fetchAdoption H ss chainId check).run log (.ok call))
    (hhalted : ss.haltedChainAnchor = false) : call.certified = true := by
  rcases fetchAdoption_spec h with ⟨-, h⟩ | ⟨h, -⟩
  · rw [hhalted] at h
    cases h
  · exact h

theorem fetchAdoption_certified {call : Adoption}
    (h : Trace (fetchAdoption H ss chainId check).run log (.ok call))
    (hcertified : call.certified = true) :
    ∃ payload, Anchored check log (call.block.height + 1) payload ∧
      payload.stateRoot = call.expectedRoot := by
  rcases fetchAdoption_spec h with ⟨h, -⟩ | ⟨-, h⟩
  · rw [hcertified] at h
    cases h
  · exact h

/-- A successful adoption is a successful download and a successful import. -/
theorem adoptSnapshot_ok {c : AppCodecs} {a a' : App}
    (h : Trace (adoptSnapshot H c ss chainId check a) log (some (.ok height, a'))) :
    ∃ call : Adoption, Trace (fetchAdoption H ss chainId check).run log (.ok call) ∧
      call.block.height = height ∧
      FailState.exec (snapshotImport H c call.block call.records call.expectedRoot
        call.tipPayload) a = some (.ok (), a') := by
  obtain ⟨l₁, l₂, x, rfl, h₁, h₂⟩ := trace_bind h
  cases x with
  | error e => cases (trace_pure h₂).2
  | ok call =>
    obtain ⟨rfl, hres⟩ := trace_pure h₂
    obtain ⟨⟨r, a₁⟩, hexec, heq⟩ := Option.map_eq_some_iff.mp hres.symm
    cases r with
    | error e => cases heq
    | ok u =>
      cases heq
      exact ⟨call, by simpa using h₁, rfl, hexec⟩

/-- `root` is the state root of a certified payload of height `height`, among
those served for that height. -/
def AnchorAt (check : FinalityCheck) (log : List (Exchange peerSig)) (height : Nat)
    (root : Digest) : Prop :=
  ∃ block payload, Served log height block ∧ (check block).isOk = true ∧
    BlockPayload.fromBytes block.payloadBytes = some payload ∧
    payload.stateRoot = root ∧ payload.height = height

/-- Whatever the donors answer, an adoption with a certified root trusts the
state root of the one payload its quorum agreed on. That payload is the one of
block `height + 1` exactly when the certified records served under that height
are records of that height, which nothing in the joiner enforces. -/
theorem adoptSnapshot_anchor_iff (H : Bytes → Digest) (c : AppCodecs) (ss : StateSyncConfig)
    (chainId : String) (check : FinalityCheck) (a : App) {log : List (Exchange peerSig)}
    {height : Nat} {a' : App}
    (h : Trace (adoptSnapshot H c ss chainId check a) log (some (.ok height, a'))) :
    ∃ call : Adoption, Trace (fetchAdoption H ss chainId check).run log (.ok call) ∧
      call.block.height = height ∧
      FailState.exec (snapshotImport H c call.block call.records call.expectedRoot
        call.tipPayload) a = some (.ok (), a') ∧
      (ss.haltedChainAnchor = false → call.certified = true) ∧
      (call.certified = true →
        (∃ payload, Anchored check log (height + 1) payload ∧
          payload.stateRoot = call.expectedRoot) ∧
        (AnchorAt check log (height + 1) call.expectedRoot ↔
          ∀ block, Served log (height + 1) block → (check block).isOk = true →
            ∃ payload, BlockPayload.fromBytes block.payloadBytes = some payload ∧
              payload.height = height + 1)) := by
  obtain ⟨call, hfetch, rfl, himport⟩ := adoptSnapshot_ok h
  refine ⟨call, hfetch, rfl, himport, fetchAdoption_not_halted hfetch, fun hcertified => ?_⟩
  obtain ⟨payload, hanchored, hroot⟩ := fetchAdoption_certified hfetch hcertified
  refine ⟨⟨payload, hanchored, hroot⟩, ?_, fun hheights => ?_⟩
  · rintro ⟨block, p, hserved, hok, hp, -, hheight⟩ other hother hotherOk
    obtain rfl : payload = p :=
      Option.some.inj ((hanchored.unanimous block hserved hok).symm.trans hp)
    exact ⟨payload, hanchored.unanimous other hother hotherOk, hheight⟩
  · obtain ⟨block, hserved, hok, hp⟩ := hanchored.served
    obtain ⟨p, hp', hheight⟩ := hheights block hserved hok
    obtain rfl : payload = p := Option.some.inj (hp.symm.trans hp')
    exact ⟨block, payload, hserved, hok, hp, hroot, hheight⟩

/-! ## Two donors

One snapshot at height 9, advertised with the state root of `sampleGenesisStore`.
The donor serves the certified record of block 9 for height 9 and the certified
record of `anchor` for height 10. -/

def donorRecord (p : BlockPayload) : QueryBlockResponse :=
  ⟨Lc.encodeProposal ⟨0, p.height, p.height - 1, p.digest sha256⟩, [UInt8.ofNat p.height],
    p.toBytes⟩

def tipPayload : BlockPayload :=
  ⟨9, 900, [1], [], ⟨List.replicate 32 4, by decide⟩, ⟨List.replicate 32 5, by decide⟩⟩

/-- A payload over the state of the snapshot. -/
def payloadAt (height : Nat) : BlockPayload :=
  ⟨height, 100 * height, [1], [], ⟨List.replicate 32 6, by decide⟩,
    stateRoot sha256 sampleGenesisStore⟩

def donorChunk : Bytes :=
  (scanEntries sampleGenesisStore).flatMap fun r =>
    u32le r.1.length ++ r.1 ++ u32le r.2.length ++ r.2

def donorAnswer (anchor : BlockPayload) : (op : PeerOp) → PeerOp.Res op
  | .connectStatesync _ => true
  | .listSnapshots _ => some [⟨9, 1, 1, (stateRoot sha256 sampleGenesisStore).bytes⟩]
  | .loadSnapshotChunk .. => some ⟨donorChunk, (sha256 donorChunk).bytes⟩
  | .connectLightClient _ => true
  | .block _ height =>
    if height = 9 then .ok (donorRecord tipPayload)
    else if height = 10 then .ok (donorRecord anchor)
    else .error .notFound

def donor (anchor : BlockPayload) : Handler peerSig Unit := fun op _ =>
  some ((), donorAnswer anchor op)

/-- The validators certified blocks 5, 9 and 10, one certificate each. -/
def sampleScheme : FinalityScheme where
  Certificate := Bytes
  decodeProposal b := (Lc.decodeProposal b).mapError fun _ => "invalid proposal"
  decodeCertificate b := .ok b
  verify p certificate := [payloadAt 5, tipPayload, payloadAt 10].any fun q =>
    decide (Lc.encodeProposal p = (donorRecord q).proposalBytes) &&
      decide (certificate = (donorRecord q).certificateBytes)

def sampleCheck : FinalityCheck := verifyFinality sha256 sampleScheme

def joinerCodecs : AppCodecs :=
  .ofValues [⟨9, 900, "slay"⟩] [sampleAppState] [tipPayload.toBytes] []
    [stateRoot sha256 sampleGenesisStore]

def joinerConfig : StateSyncConfig := ⟨["donor"], 1, 1000, false⟩

def joinerRun (anchor : BlockPayload) :=
  run (logged (donor anchor)) (adoptSnapshot sha256 joinerCodecs joinerConfig "slay" sampleCheck
    (App.new ⟨.memory, ∅, []⟩)) ((), [])

def adoptedHeight (anchor : BlockPayload) : Option Nat :=
  (joinerRun anchor).bind fun x => x.2.bind fun y => y.1.toOption

/-- A joiner that adopts the snapshot has a log with this donor's answers only. -/
theorem trace_of_adoptedHeight {anchor : BlockPayload} (h : adoptedHeight anchor = some height) :
    ∃ log a',
      Trace (adoptSnapshot sha256 joinerCodecs joinerConfig "slay" sampleCheck
        (App.new ⟨.memory, ∅, []⟩)) log (some (.ok height, a')) ∧
      ∀ n block, Served log n block →
        n = 9 ∧ block = donorRecord tipPayload ∨ n = 10 ∧ block = donorRecord anchor := by
  obtain ⟨⟨⟨u, log⟩, r⟩, hrun, hr⟩ := Option.bind_eq_some_iff.mp h
  obtain ⟨⟨e, a'⟩, rfl, he⟩ := Option.bind_eq_some_iff.mp hr
  cases e with
  | error e => cases he
  | ok n =>
    cases he
    obtain ⟨l, hl, htrace⟩ := trace_of_run hrun
    rw [List.nil_append] at hl
    subst hl
    refine ⟨log, a', htrace, fun n block ⟨peer, hmem⟩ => ?_⟩
    obtain ⟨_, _, hanswer⟩ := mem_log_of_run hrun _ hmem
    have hanswer : donorAnswer anchor (.block peer n) = .ok block :=
      (Prod.mk.inj (Option.some.inj hanswer)).2
    simp only [donorAnswer] at hanswer
    split at hanswer
    · exact .inl ⟨‹_›, (Except.ok.inj hanswer).symm⟩
    · split at hanswer
      · exact .inr ⟨‹_›, (Except.ok.inj hanswer).symm⟩
      · cases hanswer

theorem adoptSnapshot_anchor_iff_honest : ∃ log call a',
    Trace (adoptSnapshot sha256 joinerCodecs joinerConfig "slay" sampleCheck
      (App.new ⟨.memory, ∅, []⟩)) log (some (.ok 9, a')) ∧
    Trace (fetchAdoption sha256 joinerConfig "slay" sampleCheck).run log (.ok call) ∧
    AnchorAt sampleCheck log 10 call.expectedRoot := by
  obtain ⟨hadopted, hnext⟩ : adoptedHeight (payloadAt 10) = some 9 ∧
      BlockPayload.fromBytes (donorRecord (payloadAt 10)).payloadBytes = some (payloadAt 10) := by
    unfold adoptedHeight joinerRun donor donorAnswer joinerCodecs sampleCheck sampleScheme
      donorRecord payloadAt tipPayload
    simp only [sha256_eq_eval]
    decide +kernel
  obtain ⟨log, a', htrace, hdonor⟩ := trace_of_adoptedHeight hadopted
  obtain ⟨call, hfetch, -, -, hcertified, hanchor⟩ := adoptSnapshot_anchor_iff sha256 joinerCodecs
    joinerConfig "slay" sampleCheck (App.new ⟨.memory, ∅, []⟩) htrace
  refine ⟨log, call, a', htrace, hfetch, (hanchor (hcertified rfl)).2.mpr fun block hserved _ => ?_⟩
  rcases hdonor 10 block hserved with ⟨h, -⟩ | ⟨-, rfl⟩
  · cases h
  · exact ⟨payloadAt 10, hnext, rfl⟩

/-- A donor that answers the question for block 10 with the certified record of
block 5: every record passes, and state from before block 5 is adopted at
height 9. -/
theorem adoptSnapshot_adopts_stale : ∃ log call a',
    Trace (adoptSnapshot sha256 joinerCodecs joinerConfig "slay" sampleCheck
      (App.new ⟨.memory, ∅, []⟩)) log (some (.ok 9, a')) ∧
    Trace (fetchAdoption sha256 joinerConfig "slay" sampleCheck).run log (.ok call) ∧
    call.certified = true ∧
    (∀ n block, Served log n block → (sampleCheck block).isOk = true) ∧
    call.expectedRoot = (payloadAt 5).stateRoot ∧
    ¬ AnchorAt sampleCheck log 10 call.expectedRoot := by
  obtain ⟨hadopted, hstale, hok⟩ : adoptedHeight (payloadAt 5) = some 9 ∧
      BlockPayload.fromBytes (donorRecord (payloadAt 5)).payloadBytes = some (payloadAt 5) ∧
      [payloadAt 5, tipPayload].all (fun p => (sampleCheck (donorRecord p)).isOk) = true := by
    unfold adoptedHeight joinerRun donor donorAnswer joinerCodecs sampleCheck sampleScheme
      donorRecord payloadAt tipPayload
    simp only [sha256_eq_eval]
    decide +kernel
  obtain ⟨log, a', htrace, hdonor⟩ := trace_of_adoptedHeight hadopted
  obtain ⟨call, hfetch, hheight, -⟩ := adoptSnapshot_ok htrace
  have hcertified := fetchAdoption_not_halted hfetch rfl
  have hserved : ∀ block, Served log 10 block → block = donorRecord (payloadAt 5) := by
    intro block h
    rcases hdonor 10 block h with ⟨h, -⟩ | ⟨-, rfl⟩
    · cases h
    · rfl
  refine ⟨log, call, a', htrace, hfetch, hcertified, fun n block h => ?_, ?_, ?_⟩
  · rcases hdonor n block h with ⟨-, rfl⟩ | ⟨-, rfl⟩ <;> exact List.all_eq_true.mp hok _ (by simp)
  · obtain ⟨payload, hanchored, hroot⟩ := fetchAdoption_certified hfetch hcertified
    rw [hheight] at hanchored
    obtain ⟨block, hb, -, hp⟩ := hanchored.served
    rw [hserved block hb, hstale] at hp
    rw [← hroot, Option.some.inj hp]
  · rintro ⟨block, payload, hb, -, hp, -, hheight⟩
    rw [hserved block hb, hstale] at hp
    cases Option.some.inj hp
    cases hheight

end LayerSdk

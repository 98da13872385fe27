import LayerSdk.TxPanics
import LayerSdk.PairTree

/-!
# What a signature covers

The hash that is signed determines the transaction in direct mode. In legacy
mode it determines what the JSON document holds; this module says what that
is, and so what two transactions with one hash can differ in.
-/

namespace LayerSdk

open PairTree (CollisionFree)

namespace Cosmos

/-! ## Escaped texts -/

def aminoEscape (c : Char) : List Char :=
  if c = '&' then "\\u0026".toList
  else if c = '<' then "\\u003c".toList
  else if c = '>' then "\\u003e".toList
  else [c]

theorem escapeAmino_eq (raw : List Char) : escapeAmino raw = raw.flatMap aminoEscape := by
  unfold escapeAmino replaceChar
  rw [List.flatMap_assoc, List.flatMap_assoc]
  refine List.flatMap_congr fun c _ => ?_
  by_cases hamp : c = '&'
  · subst hamp
    rfl
  · by_cases hlt : c = '<'
    · subst hlt
      rfl
    · by_cases hgt : c = '>'
      · subst hgt
        rfl
      · simp only [aminoEscape, if_neg hamp, if_neg hlt, if_neg hgt, List.flatMap_cons,
          List.flatMap_nil, List.append_nil]

/-- A text as `serde_json` writes it: a backslash starts an escape, and none of the
escapes stands for one of the three characters, which are written as they are. -/
inductive SerdeText : List Char → Prop
  | nil : SerdeText []
  | char {c : Char} {rest : List Char} : c ≠ '\\' → SerdeText rest → SerdeText (c :: rest)
  | escape {c : Char} {rest : List Char} : c ∉ ['&', '<', '>'] →
      (c = 'u' → ∀ code ∈ ["0026", "003c", "003e"], ¬ code.toList <+: rest) →
      SerdeText rest → SerdeText ('\\' :: c :: rest)

theorem aminoEscape_of_notMem {c : Char} (h : c ∉ ['&', '<', '>']) : aminoEscape c = [c] := by
  simp only [List.mem_cons, List.not_mem_nil, or_false, not_or] at h
  simp [aminoEscape, h.1, h.2.1, h.2.2]

/-- A special character is escaped with its code. -/
theorem aminoEscape_of_mem {c : Char} (h : c ∈ ['&', '<', '>']) :
    ∃ code ∈ ["0026", "003c", "003e"], aminoEscape c = '\\' :: 'u' :: code.toList := by
  simp only [List.mem_cons, List.not_mem_nil, or_false] at h
  rcases h with rfl | rfl | rfl
  · exact ⟨"0026", by simp, rfl⟩
  · exact ⟨"003c", by simp, rfl⟩
  · exact ⟨"003e", by simp, rfl⟩

/-- Text that is not escaped comes from itself. -/
theorem prefix_of_prefix_flatMap : ∀ {code rest : List Char}, '\\' ∉ code →
    code <+: rest.flatMap aminoEscape → code <+: rest
  | [], _, _, _ => List.nil_prefix
  | x :: code, [], _, h => by simp at h
  | x :: code, c :: rest, hx, h => by
    rw [List.mem_cons, not_or] at hx
    by_cases hc : c ∈ ['&', '<', '>']
    · obtain ⟨_, -, hesc⟩ := aminoEscape_of_mem hc
      rw [List.flatMap_cons, hesc, List.cons_append, List.cons_prefix_cons] at h
      exact absurd h.1.symm hx.1
    · rw [List.flatMap_cons, aminoEscape_of_notMem hc, List.singleton_append,
        List.cons_prefix_cons] at h
      rw [h.1, List.cons_prefix_cons]
      exact ⟨rfl, prefix_of_prefix_flatMap hx.2 h.2⟩

/-- The escapes of the three characters differ. -/
theorem aminoEscape_append_inj {c d : Char} {x y : List Char} (hc : c ∈ ['&', '<', '>'])
    (hd : d ∈ ['&', '<', '>']) (h : aminoEscape c ++ x = aminoEscape d ++ y) : c = d ∧ x = y := by
  have hlen : ∀ c ∈ ['&', '<', '>'], (aminoEscape c).length = 6 := by
    simp only [List.forall_mem_cons, List.not_mem_nil, false_implies, implies_true, and_true]
    decide
  have hinj : ∀ c ∈ ['&', '<', '>'], ∀ d ∈ ['&', '<', '>'],
      aminoEscape c = aminoEscape d → c = d := by
    simp only [List.forall_mem_cons, List.not_mem_nil, false_implies, implies_true, and_true]
    decide
  obtain ⟨hcd, hxy⟩ := List.append_inj h ((hlen c hc).trans (hlen d hd).symm)
  exact ⟨hinj c hc d hd hcd, hxy⟩

/-- An escape that was there is not one of ours. -/
theorem SerdeText.escape_ne {c d : Char} {rest x : List Char} (hc : c ∈ ['&', '<', '>'])
    (hd : d ∉ ['&', '<', '>'])
    (hcode : d = 'u' → ∀ code ∈ ["0026", "003c", "003e"], ¬ code.toList <+: rest) :
    aminoEscape c ++ x ≠ '\\' :: aminoEscape d ++ rest.flatMap aminoEscape := by
  intro h
  obtain ⟨code, hmem, hesc⟩ := aminoEscape_of_mem hc
  rw [hesc, aminoEscape_of_notMem hd] at h
  simp only [List.cons_append, List.nil_append, List.cons.injEq, true_and] at h
  have hpre : code.toList <+: rest.flatMap aminoEscape := ⟨x, h.2⟩
  have hplain : '\\' ∉ code.toList := by
    simp only [List.mem_cons, List.not_mem_nil, or_false] at hmem
    rcases hmem with rfl | rfl | rfl <;> decide
  exact hcode h.1.symm code hmem (prefix_of_prefix_flatMap hplain hpre)

theorem aminoEscape_ne_nil (c : Char) : aminoEscape c ≠ [] := by
  by_cases hc : c ∈ ['&', '<', '>']
  · obtain ⟨_, -, hesc⟩ := aminoEscape_of_mem hc
    simp [hesc]
  · simp [aminoEscape_of_notMem hc]

/-- Escaping loses nothing of a text that `serde_json` wrote. -/
theorem SerdeText.escape_inj {a b : List Char} (ha : SerdeText a) (hb : SerdeText b)
    (h : a.flatMap aminoEscape = b.flatMap aminoEscape) : a = b := by
  induction ha generalizing b with
  | nil =>
    cases hb with
    | nil => rfl
    | char _ _ | escape _ _ _ => simp [aminoEscape_ne_nil] at h
  | @char c rest hc hrest ih =>
    cases hb with
    | nil => simp [aminoEscape_ne_nil] at h
    | @char d rest' hd hrest' =>
      rw [List.flatMap_cons, List.flatMap_cons] at h
      by_cases hcs : c ∈ ['&', '<', '>']
      · by_cases hds : d ∈ ['&', '<', '>']
        · obtain ⟨rfl, hx⟩ := aminoEscape_append_inj hcs hds h
          rw [ih hrest' hx]
        · obtain ⟨_, -, hesc⟩ := aminoEscape_of_mem hcs
          rw [hesc, aminoEscape_of_notMem hds] at h
          exact absurd (List.cons.inj h).1.symm hd
      · rw [aminoEscape_of_notMem hcs] at h
        by_cases hds : d ∈ ['&', '<', '>']
        · obtain ⟨_, -, hesc⟩ := aminoEscape_of_mem hds
          rw [hesc] at h
          exact absurd (List.cons.inj h).1 hc
        · rw [aminoEscape_of_notMem hds] at h
          obtain ⟨rfl, hx⟩ := List.cons.inj h
          rw [ih hrest' hx]
    | @escape d rest' hd hcode hrest' =>
      rw [List.flatMap_cons, List.flatMap_cons, List.flatMap_cons,
        aminoEscape_of_notMem (c := '\\') (by decide), ← List.append_assoc] at h
      by_cases hcs : c ∈ ['&', '<', '>']
      · exact absurd h (SerdeText.escape_ne hcs hd hcode)
      · rw [aminoEscape_of_notMem hcs] at h
        exact absurd (List.cons.inj h).1 hc
  | @escape c rest hc hcode hrest ih =>
    cases hb with
    | nil => simp [aminoEscape_ne_nil] at h
    | @char d rest' hd hrest' =>
      rw [List.flatMap_cons, List.flatMap_cons, List.flatMap_cons,
        aminoEscape_of_notMem (c := '\\') (by decide), ← List.append_assoc] at h
      by_cases hds : d ∈ ['&', '<', '>']
      · exact absurd h.symm (SerdeText.escape_ne hds hc hcode)
      · rw [aminoEscape_of_notMem hds] at h
        exact absurd (List.cons.inj h).1.symm hd
    | @escape d rest' hd hcode' hrest' =>
      simp only [List.flatMap_cons, aminoEscape_of_notMem (c := '\\') (by decide),
        aminoEscape_of_notMem hc, aminoEscape_of_notMem hd, List.singleton_append,
        List.cons.injEq, true_and] at h
      rw [h.1, ih hrest' h.2]

/-! ## The legacy document -/

section Legacy

variable {V : Type} (lib : CosmosLib V) (B : Bech32)

/-- What is known of the serialisers: they do not write one text for two values, and
the JSON texts are those of `serde_json`. -/
structure EncodersFaithful : Prop where
  signDoc : ∀ {d d' x}, lib.signDocBytes d = .ok x → lib.signDocBytes d' = .ok x → d = d'
  docJson : ∀ {d d' x}, lib.docJson d = .ok x → lib.docJson d' = .ok x → d = d'
  serdeText : ∀ {d x}, lib.docJson d = .ok x → SerdeText x.toList
  display : ∀ {a b : AccountId}, a.display B = b.display B → a = b

variable {lib B} (henc : EncodersFaithful lib B)

include henc in
theorem toBytes_inj {d d' : StdSignDoc V} {x : Bytes} (h : d.toBytes lib = .ok x)
    (h' : d'.toBytes lib = .ok x) : d = d' := by
  unfold StdSignDoc.toBytes at h h'
  cases hd : lib.docJson d with
  | error e => simp [hd] at h
  | ok raw =>
    cases hd' : lib.docJson d' with
    | error e => simp [hd'] at h'
    | ok raw' =>
      simp only [hd, hd', Except.ok.injEq] at h h'
      have htext := String.ofList_injective (str_inj (h.trans h'.symm))
      rw [escapeAmino_eq, escapeAmino_eq] at htext
      have hraw := (henc.serdeText hd).escape_inj (henc.serdeText hd') htext
      exact henc.docJson hd (String.toList_inj.mp hraw ▸ hd')

theorem aminoCoin_injective : Function.Injective aminoCoin := by
  rintro ⟨denom, amount⟩ ⟨denom', amount'⟩ h
  simp only [aminoCoin, AminoCoin.mk.injEq] at h
  rw [repr_inj h.1, h.2]

theorem map_aminoCoin_inj {l l' : List Coin} (h : l.map aminoCoin = l'.map aminoCoin) : l = l' :=
  List.map_injective_iff.mpr aminoCoin_injective h

theorem stdFee_inj {fee fee' : FeeInfo} (h : stdFee fee = stdFee fee') : fee = fee' := by
  obtain ⟨coin, gas⟩ := fee
  obtain ⟨coin', gas'⟩ := fee'
  simp only [stdFee, StdFee.mk.injEq] at h
  have hcoin := map_aminoCoin_inj h.1
  have hgas := repr_inj h.2
  cases coin <;> cases coin' <;> simp_all

/-- The kinds of messages that the document describes. -/
def hasLegacyForm : Msg → Bool
  | .bank (.send ..) => true
  | .wasm (.execute ..) => true
  | .wasm (.instantiate ..) => true
  | _ => false

/-- Two messages agree on what the document leaves out: all of a message of another
kind, and the bytes of what is sent to a contract. -/
def AgreeLeftOut (m m' : Msg) : Prop :=
  (hasLegacyForm m = false → m = m') ∧ contractMsg m = contractMsg m'

/-- Where a form in the document comes from. -/
theorem build_cases {m : Msg} {a : AminoMsg V} (h : AminoMsg.build lib B m = some a) :
    (∃ sender recipient amount, m = .bank (.send sender recipient amount) ∧
      a = .msgSend (amount.map aminoCoin) (sender.display B) (recipient.display B)) ∨
    (∃ sender contractAddr msg funds value, m = .wasm (.execute sender contractAddr msg funds) ∧
      a = .msgExecute (contractAddr.display B) (funds.map aminoCoin) value (sender.display B)) ∨
    (∃ sender admin codeId msg funds label value,
      m = .wasm (.instantiate sender admin codeId msg funds label) ∧
      a = .msgInstantiate (admin.map (AccountId.display B)) (Nat.repr codeId)
        (funds.map aminoCoin) label value (sender.display B)) ∨
    (hasLegacyForm m = false ∧ a = .other) := by
  unfold AminoMsg.build at h
  split at h
  · exact .inl ⟨_, _, _, rfl, (Option.some.inj h).symm⟩
  · obtain ⟨value, -, hvalue⟩ := Option.bind_eq_some_iff.mp h
    exact .inr (.inl ⟨_, _, _, _, value, rfl, (Option.some.inj hvalue).symm⟩)
  · obtain ⟨value, -, hvalue⟩ := Option.bind_eq_some_iff.mp h
    exact .inr (.inr (.inl ⟨_, _, _, _, _, _, value, rfl, (Option.some.inj hvalue).symm⟩))
  · rename_i hsend hexecute hinstantiate
    refine .inr (.inr (.inr ⟨?_, (Option.some.inj h).symm⟩))
    unfold hasLegacyForm
    split
    · exact absurd rfl (hsend _ _ _)
    · exact absurd rfl (hexecute _ _ _ _)
    · exact absurd rfl (hinstantiate _ _ _ _ _ _)
    · rfl

include henc in
/-- The document's form of a message and what it leaves out make up the message. -/
theorem build_inj {m m' : Msg} {a : AminoMsg V} (h : AminoMsg.build lib B m = some a)
    (h' : AminoMsg.build lib B m' = some a) (hagree : AgreeLeftOut m m') : m = m' := by
  obtain ⟨hother, hraw⟩ := hagree
  rcases build_cases h with ⟨s, r, amount, rfl, rfl⟩ | ⟨s, c, msg, funds, v, rfl, rfl⟩ |
    ⟨s, adm, code, msg, funds, label, v, rfl, rfl⟩ | ⟨hform, rfl⟩
  · rcases build_cases h' with ⟨s', r', amount', rfl, ha⟩ | ⟨_, _, _, _, _, -, ha⟩ |
      ⟨_, _, _, _, _, _, _, -, ha⟩ | ⟨-, ha⟩
    · simp only [AminoMsg.msgSend.injEq] at ha
      rw [map_aminoCoin_inj ha.1, henc.display ha.2.1, henc.display ha.2.2]
    all_goals cases ha
  · rcases build_cases h' with ⟨_, _, _, -, ha⟩ | ⟨s', c', msg', funds', v', rfl, ha⟩ |
      ⟨_, _, _, _, _, _, _, -, ha⟩ | ⟨-, ha⟩
    · cases ha
    · simp only [AminoMsg.msgExecute.injEq] at ha
      have hmsg : msg = msg' := Option.some.inj hraw
      rw [henc.display ha.1, map_aminoCoin_inj ha.2.1, henc.display ha.2.2.2, hmsg]
    all_goals cases ha
  · rcases build_cases h' with ⟨_, _, _, -, ha⟩ | ⟨_, _, _, _, _, -, ha⟩ |
      ⟨s', adm', code', msg', funds', label', v', rfl, ha⟩ | ⟨-, ha⟩
    · cases ha
    · cases ha
    · simp only [AminoMsg.msgInstantiate.injEq] at ha
      obtain ⟨hadm, hcode, hfunds, rfl, -, hs⟩ := ha
      have hmsg : msg = msg' := Option.some.inj hraw
      have hdisplay : Function.Injective (AccountId.display B) := fun _ _ => henc.display
      rw [Option.map_injective hdisplay hadm, repr_inj hcode, map_aminoCoin_inj hfunds,
        henc.display hs, hmsg]
    · cases ha
  · exact hother hform

/-- The messages agree on what the document leaves out, position by position. -/
def AgreeAllLeftOut (msgs msgs' : List Msg) : Prop :=
  ∀ p ∈ msgs.zip msgs', AgreeLeftOut p.1 p.2

include henc in
theorem buildAminoMsgs_inj : ∀ {msgs msgs' : List Msg} {as : List (AminoMsg V)},
    buildAminoMsgs lib B msgs = some as → buildAminoMsgs lib B msgs' = some as →
    AgreeAllLeftOut msgs msgs' → msgs = msgs'
  | [], [], _, _, _, _ => rfl
  | [], m' :: rest', as, h, h', _ => by
    cases h
    simp only [buildAminoMsgs, Option.bind_eq_bind, Option.bind_eq_some_iff, Option.pure_def,
      Option.some.injEq, reduceCtorEq, and_false, exists_false] at h'
  | m :: rest, [], as, h, h', _ => by
    cases h'
    simp only [buildAminoMsgs, Option.bind_eq_bind, Option.bind_eq_some_iff, Option.pure_def,
      Option.some.injEq, reduceCtorEq, and_false, exists_false] at h
  | m :: rest, m' :: rest', as, h, h', hagree => by
    simp only [buildAminoMsgs, Option.bind_eq_bind, Option.bind_eq_some_iff, Option.pure_def,
      Option.some.injEq] at h h'
    obtain ⟨a, ha, bs, hbs, rfl⟩ := h
    obtain ⟨a', ha', bs', hbs', heq⟩ := h'
    obtain ⟨rfl, rfl⟩ := List.cons.inj heq
    have hhead : AgreeLeftOut m m' := hagree (m, m') (List.mem_cons_self)
    have hrest : AgreeAllLeftOut rest rest' := fun p hp => hagree p (List.mem_cons_of_mem _ hp)
    rw [build_inj henc ha ha' hhead, buildAminoMsgs_inj hbs hbs' hrest]

end Legacy

/-! ## What the parser found -/

section Parsed

variable {V : Type} (lib : CosmosLib V) (B : Bech32) (H : Bytes → Digest)

/-- A transaction that was accepted, with what it was made from. -/
structure Parsed (bytes : Bytes) (chainId : String) (t : SignedTx) (raw : TxRaw) (tx : CosmosTx)
    (info : SignerInfo) : Prop where
  readRaw : lib.txRaw bytes = .ok raw
  readTx : lib.tx bytes = .ok tx
  msgs : (parseCosmosMsgs lib B tx.body.messages).run = some (.ok t.msgs)
  signer : requiredSigner t.msgs = .ok t.signer
  fee : getFee tx = .ok t.fee
  infos : tx.authInfo.signerInfos = [info]
  sequence : t.signingInfo.sequence = info.sequence
  timeout : t.timeoutHeight = timeoutOf tx.body.timeoutHeight
  hash : (messageHash lib B H ⟨raw.bodyBytes, raw.authInfoBytes, chainId, fixedAccountNumber⟩ t.msgs
    t.fee info.sequence tx.body.memo info.modeInfo).run = some (.ok t.signingInfo.messageHash)

variable {chainId : String} {t : SignedTx}

theorem parsed_of_parseCosmosTx {bytes : Bytes}
    (h : (parseCosmosTx lib B H bytes chainId).run = some (.ok t)) :
    ∃ raw tx info, Parsed lib B H bytes chainId t raw tx info := by
  obtain ⟨⟨tx, doc⟩, hread, hrest⟩ := ParseM.run_bind_eq_ok.mp h
  obtain ⟨raw, hraw, htx, rfl⟩ := (parseRawTx_eq_ok_iff lib).mp hread
  obtain ⟨msgs, hmsgs, hrest⟩ := ParseM.run_bind_eq_ok.mp hrest
  obtain ⟨signer, hsigner, hrest⟩ := ParseM.run_bind_eq_ok.mp hrest
  obtain ⟨fee, hfee, hrest⟩ := ParseM.run_bind_eq_ok.mp hrest
  obtain ⟨signingInfo, hsigning, hrest⟩ := ParseM.run_bind_eq_ok.mp hrest
  obtain ⟨signature, -, hsigning⟩ := ParseM.run_bind_eq_ok.mp hsigning
  obtain ⟨info, hinfo, hsigning⟩ := ParseM.run_bind_eq_ok.mp hsigning
  obtain ⟨pubkey, -, hsigning⟩ := ParseM.run_bind_eq_ok.mp hsigning
  obtain ⟨hash, hhash, hsigning⟩ := ParseM.run_bind_eq_ok.mp hsigning
  have hmsgs' : (parseCosmosMsgs lib B tx.body.messages).run = some (.ok msgs) := by
    rw [ParseM.run_mapErr] at hmsgs
    obtain ⟨r, hr, hok⟩ := Option.map_eq_some_iff.mp hmsgs
    rw [hr, mapError_eq_ok.mp hok]
  obtain rfl := Except.ok.inj (Option.some.inj hsigning)
  split at hrest
  · cases hrest
  · obtain rfl := Except.ok.inj (Option.some.inj hrest)
    exact ⟨raw, tx, info, hraw, htx, hmsgs', mapError_eq_ok.mp (Option.some.inj hsigner),
      Option.some.inj hfee, theOnly_eq_ok_iff.mp (Option.some.inj hinfo), rfl, rfl, hhash⟩

/-- The bytes that are hashed. -/
def signedBytes (doc : SignDoc) (msgs : List Msg) (fee : FeeInfo) (sequence : Nat)
    (memo : String) : ModeInfo → Option Bytes
  | .single .direct => (lib.signDocBytes doc).toOption
  | .single .unspecified => (lib.signDocBytes doc).toOption
  | .single .legacyAminoJson =>
    (StdSignDoc.build lib B doc msgs fee sequence memo).bind fun d => (d.toBytes lib).toOption
  | _ => none

theorem toOption_eq_some_iff {ε α : Type} {x : Except ε α} {a : α} :
    x.toOption = some a ↔ x = .ok a := by
  cases x <;> simp [Except.toOption]

theorem signedBytes_of_messageHash {doc : SignDoc} {msgs : List Msg} {fee : FeeInfo}
    {sequence : Nat} {memo : String} {mode : ModeInfo} {hash : Bytes}
    (h : (messageHash lib B H doc msgs fee sequence memo mode).run = some (.ok hash)) :
    ∃ x, signedBytes lib B doc msgs fee sequence memo mode = some x ∧ hash = (H x).bytes := by
  have hdirect : (hashDirectMode lib H doc).run = some (.ok hash) →
      ∃ x, (lib.signDocBytes doc).toOption = some x ∧ hash = (H x).bytes := by
    intro h
    obtain ⟨x, hx, hhash⟩ := ParseM.run_bind_eq_ok.mp h
    exact ⟨x, toOption_eq_some_iff.mpr (mapError_eq_ok.mp (Option.some.inj hx)),
      (Except.ok.inj (Option.some.inj hhash)).symm⟩
  cases mode with
  | multi => cases h
  | single mode =>
    cases mode with
    | direct | unspecified => exact hdirect h
    | legacyAminoJson =>
      obtain ⟨d, hd, h⟩ := ParseM.run_bind_eq_ok.mp h
      obtain ⟨x, hx, hhash⟩ := ParseM.run_bind_eq_ok.mp h
      obtain ⟨d', hd', heq⟩ := Option.map_eq_some_iff.mp hd
      obtain rfl : d' = d := Except.ok.inj heq
      refine ⟨x, Option.bind_eq_some_iff.mpr ⟨d', hd', ?_⟩,
        (Except.ok.inj (Option.some.inj hhash)).symm⟩
      exact toOption_eq_some_iff.mpr (mapError_eq_ok.mp (Option.some.inj hx))
    | textual | directAux | eip191 => cases h

/-- The bytes that are hashed for a raw transaction. -/
def signedBytesOf (bytes : Bytes) (chainId : String) : Option Bytes := do
  let raw ← (lib.txRaw bytes).toOption
  let tx ← (lib.tx bytes).toOption
  let msgs ← (parseCosmosMsgs lib B tx.body.messages).run.bind Except.toOption
  let fee ← (getFee tx).toOption
  let info ← (theOnly tx.authInfo.signerInfos).toOption
  signedBytes lib B ⟨raw.bodyBytes, raw.authInfoBytes, chainId, fixedAccountNumber⟩ msgs fee
    info.sequence tx.body.memo info.modeInfo

/-- The document that is signed for a raw transaction in the legacy mode. -/
def signDocOf (bytes : Bytes) (chainId : String) : Option (StdSignDoc V) := do
  let raw ← (lib.txRaw bytes).toOption
  let tx ← (lib.tx bytes).toOption
  let msgs ← (parseCosmosMsgs lib B tx.body.messages).run.bind Except.toOption
  let fee ← (getFee tx).toOption
  let info ← (theOnly tx.authInfo.signerInfos).toOption
  match info.modeInfo with
  | .single .legacyAminoJson =>
    StdSignDoc.build lib B ⟨raw.bodyBytes, raw.authInfoBytes, chainId, fixedAccountNumber⟩ msgs fee
      info.sequence tx.body.memo
  | _ => none

variable {lib B H}

/-- In the legacy mode only the document counts. -/
theorem signedBytesOf_of_signDocOf {bytes : Bytes} {d : StdSignDoc V}
    (h : signDocOf lib B bytes chainId = some d) :
    signedBytesOf lib B bytes chainId = (d.toBytes lib).toOption := by
  simp only [signDocOf, Option.bind_eq_bind, Option.bind_eq_some_iff] at h
  obtain ⟨raw, hraw, tx, htx, msgs, hmsgs, fee, hfee, info, hinfo, hdoc⟩ := h
  rw [← Option.bind_eq_some_iff] at hmsgs
  simp only [signedBytesOf, hraw, htx, hmsgs, hfee, hinfo, Option.bind_eq_bind, Option.bind_some]
  split at hdoc
  · rename_i hmode
    rw [hmode, Cosmos.signedBytes, hdoc, Option.bind_some]
  · cases hdoc

theorem Parsed.signedBytes {bytes : Bytes} {raw : TxRaw} {tx : CosmosTx} {info : SignerInfo}
    (h : Parsed lib B H bytes chainId t raw tx info) :
    ∃ x, Cosmos.signedBytes lib B ⟨raw.bodyBytes, raw.authInfoBytes, chainId, fixedAccountNumber⟩
        t.msgs t.fee info.sequence tx.body.memo info.modeInfo = some x ∧
      signedBytesOf lib B bytes chainId = some x ∧ t.signingInfo.messageHash = (H x).bytes := by
  obtain ⟨x, hx, hhash⟩ := signedBytes_of_messageHash lib B H h.hash
  refine ⟨x, hx, ?_, hhash⟩
  simp only [signedBytesOf, h.readRaw, h.readTx, h.msgs, h.fee, h.infos, theOnly, Except.toOption,
    Option.bind_some, Option.bind_eq_bind]
  exact hx

/-- One text to sign, one hash. -/
theorem messageHash_eq_of_signedBytesOf {b b' : Bytes} {t' : SignedTx}
    (h : (parseCosmosTx lib B H b chainId).run = some (.ok t))
    (h' : (parseCosmosTx lib B H b' chainId).run = some (.ok t'))
    (hsame : signedBytesOf lib B b chainId = signedBytesOf lib B b' chainId) :
    t.signingInfo.messageHash = t'.signingInfo.messageHash := by
  obtain ⟨_, _, _, hp⟩ := parsed_of_parseCosmosTx lib B H h
  obtain ⟨_, _, _, hp'⟩ := parsed_of_parseCosmosTx lib B H h'
  obtain ⟨x, -, hof, hx⟩ := hp.signedBytes
  obtain ⟨x', -, hof', hx'⟩ := hp'.signedBytes
  obtain rfl : x = x' := Option.some.inj (hof.symm.trans (hsame.trans hof'))
  rw [hx, hx']

end Parsed

/-! ## Binding -/

/-- The transactions are the same but for the signature and the key that comes with it. -/
structure SameTx (t t' : SignedTx) : Prop where
  signer : t.signer = t'.signer
  msgs : t.msgs = t'.msgs
  fee : t.fee = t'.fee
  sequence : t.signingInfo.sequence = t'.signingInfo.sequence
  timeoutHeight : t.timeoutHeight = t'.timeoutHeight

theorem SameTx.of_parsed {V : Type} {lib : CosmosLib V} {B : Bech32} {H : Bytes → Digest}
    {b b' : Bytes} {chainId : String} {t t' : SignedTx} {raw raw' : TxRaw} {tx tx' : CosmosTx}
    {info info' : SignerInfo} (h : Parsed lib B H b chainId t raw tx info)
    (h' : Parsed lib B H b' chainId t' raw' tx' info') (hmsgs : t.msgs = t'.msgs)
    (hfee : t.fee = t'.fee) (hseq : info.sequence = info'.sequence)
    (htimeout : t.timeoutHeight = t'.timeoutHeight) : SameTx t t' where
  signer := by
    have hsigner := h.signer
    rw [hmsgs] at hsigner
    exact Except.ok.inj (hsigner.symm.trans h'.signer)
  msgs := hmsgs
  fee := hfee
  sequence := by rw [h.sequence, h'.sequence, hseq]
  timeoutHeight := htimeout

section Binding

variable {V : Type} (lib : CosmosLib V) (B : Bech32) (H : Bytes → Digest)

/-- The transaction is signed in this mode. -/
def SignsIn (bytes : Bytes) (mode : ModeInfo) : Prop :=
  ∃ tx info, lib.tx bytes = .ok tx ∧ tx.authInfo.signerInfos = [info] ∧ info.modeInfo = mode

/-- The transaction is what its body bytes and its signer bytes decode to. This is so
if neither of the two fields stands twice in the raw bytes: the last one would
be signed, and protobuf merges all of them. -/
def Unrepeated (decodeBody : Bytes → Except String Body)
    (decodeAuthInfo : Bytes → Except String AuthInfo) (bytes : Bytes) : Prop :=
  ∃ raw tx, lib.txRaw bytes = .ok raw ∧ lib.tx bytes = .ok tx ∧
    decodeBody raw.bodyBytes = .ok tx.body ∧ decodeAuthInfo raw.authInfoBytes = .ok tx.authInfo

variable {lib B H} {b b' : Bytes} {chainId : String} {t t' : SignedTx} {raw raw' : TxRaw}
  {tx tx' : CosmosTx} {info info' : SignerInfo}

theorem agreeAllLeftOut_refl : ∀ msgs : List Msg, AgreeAllLeftOut msgs msgs
  | [] => fun _ hp => (List.not_mem_nil hp).elim
  | m :: rest => fun p hp => by
    rcases List.mem_cons.mp hp with rfl | hrest
    · exact ⟨fun _ => rfl, rfl⟩
    · exact agreeAllLeftOut_refl rest p hrest

/-- Legacy mode: one document. -/
theorem sameTx_legacy_iff (henc : EncodersFaithful lib B)
    (h : Parsed lib B H b chainId t raw tx info)
    (h' : Parsed lib B H b' chainId t' raw' tx' info') {x : Bytes}
    (hx : signedBytes lib B ⟨raw.bodyBytes, raw.authInfoBytes, chainId, fixedAccountNumber⟩ t.msgs
      t.fee info.sequence tx.body.memo (.single .legacyAminoJson) = some x)
    (hx' : signedBytes lib B ⟨raw'.bodyBytes, raw'.authInfoBytes, chainId, fixedAccountNumber⟩
      t'.msgs t'.fee info'.sequence tx'.body.memo (.single .legacyAminoJson) = some x) :
    SameTx t t' ↔ t.timeoutHeight = t'.timeoutHeight ∧ AgreeAllLeftOut t.msgs t'.msgs := by
  obtain ⟨d, hd, hbytes⟩ := Option.bind_eq_some_iff.mp hx
  obtain ⟨d', hd', hbytes'⟩ := Option.bind_eq_some_iff.mp hx'
  obtain rfl := toBytes_inj henc (toOption_eq_some_iff.mp hbytes) (toOption_eq_some_iff.mp hbytes')
  obtain ⟨as, has, hdoc⟩ := Option.bind_eq_some_iff.mp hd
  obtain ⟨as', has', hdoc'⟩ := Option.bind_eq_some_iff.mp hd'
  have hfields := Option.some.inj (hdoc.trans hdoc'.symm)
  simp only [StdSignDoc.mk.injEq] at hfields
  obtain ⟨-, -, hfee, -, rfl, hseq, -⟩ := hfields
  constructor
  · intro hsame
    exact ⟨hsame.timeoutHeight, hsame.msgs ▸ agreeAllLeftOut_refl t.msgs⟩
  · rintro ⟨htimeout, hagree⟩
    exact .of_parsed h h' (buildAminoMsgs_inj henc has has' hagree) (stdFee_inj hfee)
      (repr_inj hseq) htimeout

/-- Direct mode: one body and one signer information. -/
theorem sameTx_direct (henc : EncodersFaithful lib B)
    (h : Parsed lib B H b chainId t raw tx info)
    (h' : Parsed lib B H b' chainId t' raw' tx' info') {x : Bytes}
    (hx : lib.signDocBytes ⟨raw.bodyBytes, raw.authInfoBytes, chainId, fixedAccountNumber⟩ = .ok x)
    (hx' : lib.signDocBytes ⟨raw'.bodyBytes, raw'.authInfoBytes, chainId, fixedAccountNumber⟩ =
      .ok x)
    {decodeBody : Bytes → Except String Body} {decodeAuthInfo : Bytes → Except String AuthInfo}
    (hu : Unrepeated lib decodeBody decodeAuthInfo b)
    (hu' : Unrepeated lib decodeBody decodeAuthInfo b') : SameTx t t' := by
  have hdoc := henc.signDoc hx hx'
  simp only [SignDoc.mk.injEq, and_true] at hdoc
  obtain ⟨r, c, hr, hc, hbody, hauth⟩ := hu
  obtain rfl := Except.ok.inj (hr.symm.trans h.readRaw)
  obtain rfl := Except.ok.inj (hc.symm.trans h.readTx)
  obtain ⟨r', c', hr', hc', hbody', hauth'⟩ := hu'
  obtain rfl := Except.ok.inj (hr'.symm.trans h'.readRaw)
  obtain rfl := Except.ok.inj (hc'.symm.trans h'.readTx)
  rw [← hdoc.1, hbody] at hbody'
  rw [← hdoc.2, hauth] at hauth'
  have hbodies := Except.ok.inj hbody'
  have hauths := Except.ok.inj hauth'
  have hmsgs : t.msgs = t'.msgs := by
    have hm := h.msgs
    rw [hbodies] at hm
    exact Except.ok.inj (Option.some.inj (hm.symm.trans h'.msgs))
  have hfee : t.fee = t'.fee := by
    have hf : getFee c = getFee c' := by
      unfold getFee
      rw [hauths]
    exact Except.ok.inj (h.fee.symm.trans (hf.trans h'.fee))
  have hinfo : info = info' := by
    have hi := h.infos
    rw [hauths] at hi
    exact (List.cons.inj (hi.symm.trans h'.infos)).1
  exact .of_parsed h h' hmsgs hfee (by rw [hinfo]) (by rw [h.timeout, h'.timeout, hbodies])

/-- **Signature binding.** Of two accepted transactions with one hash in one mode: in
legacy mode they are the same if and only if they agree on the timeout height
and on what of their messages the document leaves out; in direct mode they are
the same if neither repeats its body or its signer information. -/
theorem signature_binding (henc : EncodersFaithful lib B)
    (h : (parseCosmosTx lib B H b chainId).run = some (.ok t))
    (h' : (parseCosmosTx lib B H b' chainId).run = some (.ok t')) {mode : ModeInfo}
    (hmode : SignsIn lib b mode) (hmode' : SignsIn lib b' mode)
    (hhash : t.signingInfo.messageHash = t'.signingInfo.messageHash)
    (hcf : CollisionFree H ((signedBytesOf lib B b chainId).toList ++
      (signedBytesOf lib B b' chainId).toList)) :
    (mode = .single .legacyAminoJson → (SameTx t t' ↔
      t.timeoutHeight = t'.timeoutHeight ∧ AgreeAllLeftOut t.msgs t'.msgs)) ∧
    (mode ≠ .single .legacyAminoJson → ∀ decodeBody decodeAuthInfo,
      Unrepeated lib decodeBody decodeAuthInfo b → Unrepeated lib decodeBody decodeAuthInfo b' →
        SameTx t t') := by
  obtain ⟨raw, tx, info, hp⟩ := parsed_of_parseCosmosTx lib B H h
  obtain ⟨raw', tx', info', hp'⟩ := parsed_of_parseCosmosTx lib B H h'
  have hinfo : info.modeInfo = mode := by
    obtain ⟨c, i, hc, hi, rfl⟩ := hmode
    obtain rfl := Except.ok.inj (hc.symm.trans hp.readTx)
    rw [(List.cons.inj (hi.symm.trans hp.infos)).1]
  have hinfo' : info'.modeInfo = mode := by
    obtain ⟨c, i, hc, hi, rfl⟩ := hmode'
    obtain rfl := Except.ok.inj (hc.symm.trans hp'.readTx)
    rw [(List.cons.inj (hi.symm.trans hp'.infos)).1]
  obtain ⟨x, hx, hof, hhx⟩ := hp.signedBytes
  obtain ⟨x', hx', hof', hhx'⟩ := hp'.signedBytes
  obtain rfl : x = x' := by
    refine hcf x ?_ x' ?_ (Digest.ext_bytes (by rw [← hhx, ← hhx', hhash]))
    · simp [hof]
    · simp [hof']
  rw [hinfo] at hx
  rw [hinfo'] at hx'
  constructor
  · rintro rfl
    exact sameTx_legacy_iff henc hp hp' hx hx'
  · intro hdirect decodeBody decodeAuthInfo hu hu'
    have hmodes : ∀ {doc msgs fee sequence memo}, signedBytes lib B doc msgs fee sequence memo mode =
        some x → lib.signDocBytes doc = .ok x := by
      intro doc msgs fee sequence memo hsigned
      cases mode with
      | multi => cases hsigned
      | single mode =>
        cases mode with
        | direct | unspecified => exact toOption_eq_some_iff.mp hsigned
        | legacyAminoJson => exact absurd rfl hdirect
        | textual | directAux | eip191 => cases hsigned
    exact sameTx_direct henc hp hp' (hmodes hx) (hmodes hx') hu hu'

end Binding

/-! ## One transaction with two signatures -/

def legacySend : MsgSend :=
  ⟨"juno1qyqszqgpqyqszqgpqyqszqgpqyqszqgpypz92q", "juno1qgpqyqszqgpqyqszqgpqyqszqgpqyqsz49yqpk", []⟩

def legacySendTx (signature : Bytes) : CosmosTx :=
  ⟨⟨[⟨msgSendUrl, legacySend.proto⟩], "", 0, []⟩, authInfoIn .legacyAminoJson, [signature]⟩

def legacyDoc (msg : AminoMsg Bytes) : StdSignDoc Bytes :=
  ⟨"17", "junoclaw-1", ⟨[], "200000"⟩, "", [msg], "0", none⟩

/-- The text of a document with one message. -/
def legacyText (msg : String) : String :=
  "\x7b\"account_number\":\"17\",\"chain_id\":\"junoclaw-1\",\"fee\":\x7b\"amount\":[]," ++
    "\"gas\":\"200000\"\x7d,\"memo\":\"\",\"msgs\":[" ++ msg ++ "],\"sequence\":\"0\"\x7d"

def sendText : String :=
  "\x7b\"type\":\"cosmos-sdk/MsgSend\",\"value\":\x7b\"amount\":[],\"from_address\":\"" ++
    legacySend.fromAddress ++ "\",\"to_address\":\"" ++ legacySend.toAddress ++ "\"\x7d\x7d"

/-- A serialiser that knows one document. -/
def oneDocJson (doc : StdSignDoc Bytes) (text : String) (d : StdSignDoc Bytes) :
    Except String String := if d = doc then .ok text else .error ""

def sendDoc : StdSignDoc Bytes := legacyDoc (.msgSend [] legacySend.fromAddress legacySend.toAddress)

/-- The crate on the two addresses, with other texts for all other addresses. -/
def twoAddresses : Bech32 :=
  { Bech32.crate with
    encode := fun b =>
      if [List.replicate 20 1, List.replicate 20 2].contains b then Bech32.crate.encode b
      else "x" ++ hexEncode b }

def twoSignaturesLib : CosmosLib Bytes :=
  { CosmosLib.ofValues ⟨[legacySendTx [1], legacySendTx [2]], [legacySend], [], [], []⟩
      (oneDocJson sendDoc (legacyText sendText)) with
    signDocBytes := fun _ => .error "" }

theorem serdeText_of_notMem : ∀ {text : List Char}, '\\' ∉ text → SerdeText text
  | [], _ => .nil
  | c :: rest, h => by
    rw [List.mem_cons, not_or] at h
    exact .char (Ne.symm h.1) (serdeText_of_notMem h.2)

theorem notMem_append {c : Char} {a b : String} (ha : c ∉ a.toList) (hb : c ∉ b.toList) :
    c ∉ (a ++ b).toList := by
  rw [String.toList_append, List.mem_append, not_or]
  exact ⟨ha, hb⟩

/-- The text goes literal by literal; evaluating the characters of the whole takes long. -/
theorem notMem_legacyText : '\\' ∉ (legacyText sendText).toList := by
  have hliteral {l : List Char} (h : '\\' ∉ l) : '\\' ∉ (String.ofList l).toList := by
    rwa [String.toList_ofList]
  have hsend : '\\' ∉ sendText.toList := by
    refine notMem_append (notMem_append (notMem_append (notMem_append ?_ ?_) ?_) ?_) ?_
    all_goals exact hliteral (by decide +kernel)
  refine notMem_append (notMem_append (notMem_append ?_ ?_) hsend) ?_
  all_goals exact hliteral (by decide +kernel)

theorem twoAddresses_display_inj {a b : AccountId}
    (h : a.display twoAddresses = b.display twoAddresses) : a = b := by
  refine AccountId.ext_bytes ?_
  have hknown : ∀ x ∈ [List.replicate 20 (1 : UInt8), List.replicate 20 2],
      ∀ y ∈ [List.replicate 20 (1 : UInt8), List.replicate 20 2],
        Bech32.crate.encode x = Bech32.crate.encode y → x = y := by decide +kernel
  have hstart : ∀ x ∈ [List.replicate 20 (1 : UInt8), List.replicate 20 2],
      (Bech32.crate.encode x).toList.head? = some 'j' := by decide +kernel
  have hother : ∀ y : Bytes, ("x" ++ hexEncode y).toList.head? = some 'x' := by
    intro y
    simp
  simp only [AccountId.display, twoAddresses, List.contains_iff_mem] at h
  split at h <;> split at h
  · exact hknown _ ‹_› _ ‹_› h
  · have hx := hstart _ ‹_›
    rw [h, hother] at hx
    cases hx
  · have hx := hstart _ ‹_›
    rw [← h, hother] at hx
    cases hx
  · exact hexEncode_inj (string_append_cancel h)

theorem twoSignaturesLib_faithful : EncodersFaithful twoSignaturesLib twoAddresses where
  signDoc h _ := by cases h
  docJson := by
    intro d d' x h h'
    simp only [twoSignaturesLib, CosmosLib.ofValues, oneDocJson] at h h'
    split at h
    · split at h'
      · exact ‹d = sendDoc›.trans ‹d' = sendDoc›.symm
      · cases h'
    · cases h
  serdeText := by
    intro d x h
    simp only [twoSignaturesLib, CosmosLib.ofValues, oneDocJson] at h
    split at h
    · cases h
      exact serdeText_of_notMem notMem_legacyText
    · cases h
  display := twoAddresses_display_inj

/-- What two accepted transactions have to do with each other, by running the parser. -/
def bothParsed (lib : CosmosLib Bytes) (B : Bech32) (b b' : Bytes)
    (p : SignedTx → SignedTx → Bool) : Bool :=
  match (parseCosmosTx lib B sha256 b "junoclaw-1").run,
    (parseCosmosTx lib B sha256 b' "junoclaw-1").run with
  | some (.ok t), some (.ok t') => p t t'
  | _, _ => false

theorem exists_of_bothParsed {lib : CosmosLib Bytes} {B : Bech32} {b b' : Bytes}
    {p : SignedTx → SignedTx → Bool} (h : bothParsed lib B b b' p = true) :
    ∃ t t', (parseCosmosTx lib B sha256 b "junoclaw-1").run = some (.ok t) ∧
      (parseCosmosTx lib B sha256 b' "junoclaw-1").run = some (.ok t') ∧ p t t' = true := by
  unfold bothParsed at h
  split at h
  · exact ⟨_, _, ‹_›, ‹_›, h⟩
  · cases h

theorem signature_binding_sample : ∃ t t',
    (parseCosmosTx twoSignaturesLib twoAddresses sha256 (legacySendTx [1]).proto "junoclaw-1").run =
      some (.ok t) ∧
    (parseCosmosTx twoSignaturesLib twoAddresses sha256 (legacySendTx [2]).proto "junoclaw-1").run =
      some (.ok t') ∧
    t.signingInfo.signature ≠ t'.signingInfo.signature ∧ SameTx t t' := by
  have hok : bothParsed twoSignaturesLib twoAddresses (legacySendTx [1]).proto
      (legacySendTx [2]).proto (fun t t' => decide (
        t.signingInfo.signature ≠ t'.signingInfo.signature ∧
        t.timeoutHeight = t'.timeoutHeight ∧ t.msgs = t'.msgs)) = true := by decide +kernel
  obtain ⟨t, t', h, h', hp⟩ := exists_of_bothParsed hok
  obtain ⟨hsig, htimeout, hmsgs⟩ := of_decide_eq_true hp
  have hsame : signedBytesOf twoSignaturesLib twoAddresses (legacySendTx [1]).proto "junoclaw-1" =
      signedBytesOf twoSignaturesLib twoAddresses (legacySendTx [2]).proto "junoclaw-1" := by
    have hdoc : ∀ signature ∈ [[(1 : UInt8)], [2]], signDocOf twoSignaturesLib twoAddresses
        (legacySendTx signature).proto "junoclaw-1" = some sendDoc := by decide +kernel
    rw [signedBytesOf_of_signDocOf (hdoc [1] (by decide)),
      signedBytesOf_of_signDocOf (hdoc [2] (by decide))]
  have hmode : ∀ signature ∈ [[1], [2]], SignsIn twoSignaturesLib (legacySendTx signature).proto
      (.single .legacyAminoJson) := by
    intro signature hmem
    have htx : ∀ signature ∈ [[(1 : UInt8)], [2]],
        (twoSignaturesLib.tx (legacySendTx signature).proto).toOption =
          some (legacySendTx signature) := by decide +kernel
    exact ⟨_, _, toOption_eq_some_iff.mp (htx signature hmem), rfl, rfl⟩
  have hcf : CollisionFree sha256
      ((signedBytesOf twoSignaturesLib twoAddresses (legacySendTx [1]).proto "junoclaw-1").toList ++
        (signedBytesOf twoSignaturesLib twoAddresses
          (legacySendTx [2]).proto "junoclaw-1").toList) := by
    rw [hsame]
    intro x hx y hy _
    simp only [List.mem_append, or_self, Option.mem_toList] at hx hy
    exact Option.some.inj (hx.symm.trans hy)
  have hbind := signature_binding twoSignaturesLib_faithful h h' (hmode _ (by decide))
    (hmode _ (by decide)) (messageHash_eq_of_signedBytesOf h h' hsame) hcf
  exact ⟨t, t', h, h', hsig,
    (hbind.1 rfl).mpr ⟨htimeout, hmsgs ▸ agreeAllLeftOut_refl t.msgs⟩⟩

/-! ## Two transactions with one hash -/

def updateAdminTo (newAdmin : String) : MsgUpdateAdmin :=
  ⟨legacySend.fromAddress, newAdmin, legacySend.toAddress⟩

def updateAdminTx (newAdmin : String) (timeoutHeight : Nat) : CosmosTx :=
  ⟨⟨[⟨msgUpdateAdminUrl, (updateAdminTo newAdmin).proto⟩], "", timeoutHeight, []⟩,
    authInfoIn .legacyAminoJson, [[1]]⟩

/-- A new admin until height 100, and another one without a limit. -/
def keepAdminTx : CosmosTx := updateAdminTx legacySend.fromAddress 100

def otherAdminTx : CosmosTx := updateAdminTx "juno1qvpsxqcrqvpsxqcrqvpsxqcrqvpsxqcr549pth" 0

def otherText : String := "\x7b\"type\":\"bogus/shit\",\"value\":null\x7d"

def updateAdminLib : CosmosLib Bytes :=
  .ofValues ⟨[keepAdminTx, otherAdminTx], [], [],
    [updateAdminTo legacySend.fromAddress,
      updateAdminTo "juno1qvpsxqcrqvpsxqcrqvpsxqcrqvpsxqcr549pth"], []⟩
    (oneDocJson (legacyDoc .other) (legacyText otherText))

theorem updateAdminTxs_share_hash : ∃ t t',
    (parseCosmosTx updateAdminLib Bech32.crate sha256 keepAdminTx.proto "junoclaw-1").run =
      some (.ok t) ∧
    (parseCosmosTx updateAdminLib Bech32.crate sha256 otherAdminTx.proto "junoclaw-1").run =
      some (.ok t') ∧
    t.signingInfo.messageHash = t'.signingInfo.messageHash ∧
    t.msgs ≠ t'.msgs ∧ t.timeoutHeight ≠ t'.timeoutHeight := by
  have hok : bothParsed updateAdminLib Bech32.crate keepAdminTx.proto otherAdminTx.proto
      (fun t t' => decide (t.msgs ≠ t'.msgs ∧ t.timeoutHeight ≠ t'.timeoutHeight)) = true := by
    decide +kernel
  have hsame : signedBytesOf updateAdminLib Bech32.crate keepAdminTx.proto "junoclaw-1" =
      signedBytesOf updateAdminLib Bech32.crate otherAdminTx.proto "junoclaw-1" := by
    have hdoc : ∀ tx ∈ [keepAdminTx, otherAdminTx], signDocOf updateAdminLib Bech32.crate
        tx.proto "junoclaw-1" = some (legacyDoc .other) := by decide +kernel
    rw [signedBytesOf_of_signDocOf (hdoc keepAdminTx List.mem_cons_self),
      signedBytesOf_of_signDocOf (hdoc otherAdminTx (List.mem_cons_of_mem _ List.mem_cons_self))]
  obtain ⟨t, t', h, h', hp⟩ := exists_of_bothParsed hok
  exact ⟨t, t', h, h', messageHash_eq_of_signedBytesOf h h' hsame, of_decide_eq_true hp⟩

end Cosmos

end LayerSdk

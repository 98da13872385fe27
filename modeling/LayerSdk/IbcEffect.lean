import LayerSdk.ChannelKeys
import LayerSdk.WritesAt
import LayerSdk.Machine

/-!
# What an IBC message does

The keys under `ibc/` are a table (`Place`); the rest of the storage is not
looked at here. `Effect` lists, message by message, what the keeper found in
the table and what it changed when the message went through.

A transfer or a timeout moves coins between finding and changing. A coin may
be a contract, which is called then; its response may hold no messages, so no
other message of the keeper comes in between (`quiet_sm`).
-/

namespace LayerSdk

open EffectProg

namespace Ibc

/-! ## The table -/

/-- A key under `ibc/`. A channel is known by its text. -/
inductive Place where
  | client (id : String)
  | connection (id : String)
  | channel (text : String)
  | nextSequence (text : String)
  | commitment (text : String) (sequence : Nat)
  | packet (text : String) (sequence : Nat)
deriving DecidableEq

namespace Place

def head : Place → String
  | client _ => "ibc/clients/"
  | connection _ => "ibc/connections/"
  | channel _ => "ibc/channelEnds/ports/"
  | nextSequence _ => "ibc/nextSequenceSend/ports/"
  | commitment .. => "ibc/commitments/ports/"
  | packet .. => "ibc/packetData/ports/"

def tail : Place → String
  | client id => id ++ "/clientState"
  | connection id => id
  | channel text => text
  | nextSequence text => text
  | commitment text sequence => text ++ "/sequences/" ++ Nat.repr sequence
  | packet text sequence => text ++ "/sequences/" ++ Nat.repr sequence

def key (x : Place) : Bytes := str (x.head ++ x.tail)

/-- The sequence is behind the last slash. -/
theorem sequences_inj {t t' : String} {n n' : Nat}
    (h : t ++ "/sequences/" ++ Nat.repr n = t' ++ "/sequences/" ++ Nat.repr n') :
    t = t' ∧ n = n' := by
  have hlist := congrArg String.toList h
  have hcut : t.toList ++ "/sequences".toList ++ '/' :: (Nat.repr n).toList =
      t'.toList ++ "/sequences".toList ++ '/' :: (Nat.repr n').toList := by
    simpa using hlist
  obtain ⟨htext, hdigits⟩ := append_slash_inj (notMem_repr rfl n) (notMem_repr rfl n') hcut
  exact ⟨String.toList_inj.mp (List.append_cancel_right htext),
    repr_inj (String.toList_inj.mp hdigits)⟩

theorem append_right_cancel {a b s : String} (h : a ++ s = b ++ s) : a = b := by
  have hlist := congrArg String.toList h
  rw [String.toList_append, String.toList_append] at hlist
  exact String.toList_inj.mp (List.append_cancel_right hlist)

theorem key_inj {x y : Place} (h : x.key = y.key) : x = y := by
  have htext := str_inj h
  cases x <;> cases y
  case client.client => exact congrArg client (append_right_cancel (string_append_cancel htext))
  case connection.connection => exact congrArg connection (string_append_cancel htext)
  case channel.channel => exact congrArg channel (string_append_cancel htext)
  case nextSequence.nextSequence => exact congrArg nextSequence (string_append_cancel htext)
  case commitment.commitment =>
      obtain ⟨rfl, rfl⟩ := sequences_inj (string_append_cancel htext)
      rfl
  case packet.packet =>
      obtain ⟨rfl, rfl⟩ := sequences_inj (string_append_cancel htext)
      rfl
  all_goals
    refine absurd htext (append_ne_append ?_ ?_) <;> simp only [head] <;> decide

end Place

theorem clientStatePath_eq (id : String) : clientStatePath id = (Place.client id).key := by
  rfl

theorem connectionPath_eq (id : String) : connectionPath id = (Place.connection id).key := by
  rfl

theorem channelPath_eq (p c : String) :
    channelPath p c = (Place.channel (channelText p c)).key := by
  simp only [channelPath, Place.key, Place.head, Place.tail, storePrefix, channelText,
    String.append_assoc]
  rfl

theorem nextSequenceSendPath_eq (p c : String) :
    nextSequenceSendPath p c = (Place.nextSequence (channelText p c)).key := by
  simp only [nextSequenceSendPath, Place.key, Place.head, Place.tail, storePrefix, channelText,
    String.append_assoc]
  rfl

theorem packetCommitmentPath_eq (p c : String) (n : Nat) :
    packetCommitmentPath p c n = (Place.commitment (channelText p c) n).key := by
  simp only [packetCommitmentPath, Place.key, Place.head, Place.tail, storePrefix, channelText,
    String.append_assoc]
  rfl

theorem packetDataPath_eq (p c : String) (n : Nat) :
    packetDataPath p c n = (Place.packet (channelText p c) n).key := by
  simp only [packetDataPath, Place.key, Place.head, Place.tail, storePrefix, channelText,
    String.append_assoc]
  rfl

abbrev Table := Place → Option Bytes

/-- What a storage has in the table. -/
def tableOf (st : Store) : Table := fun x => st[x.key]?

theorem tableOf_update (st : Store) (x : Place) (v : Option Bytes) :
    tableOf (OrdMap.update st x.key v) = Function.update (tableOf st) x v := by
  funext y
  rw [tableOf, OrdMap.getElem?_update, Function.update_apply]
  by_cases h : y = x
  · rw [if_pos h, if_pos (h ▸ rfl)]
  · rw [if_neg h, if_neg fun hkey => h (Place.key_inj hkey).symm]
    rfl

/-! ## Coins -/

/-- Not a key under `ibc/`. -/
def Outside (key : Bytes) : Prop := key.head? ≠ some 0x69

theorem outside_lengthPrefixed {ns : Bytes} (h : ns.length < 256) (rest : Bytes) :
    Outside (lengthPrefixed ns ++ rest) := by
  have hhead : (lengthPrefixed ns ++ rest).head? = some 0 := by
    rw [lengthPrefixed, Nat.div_eq_of_lt h]
    rfl
  rw [Outside, hhead]
  decide

instance : Within Outside namespaceBank := ⟨outside_lengthPrefixed (by decide)⟩

instance : Within Outside namespaceWasm := ⟨outside_lengthPrefixed (by decide)⟩

theorem not_outside_key (x : Place) : ¬ Outside x.key := by
  have hkey : ∀ a b : String, (str (a ++ b)).head? = ((str a).head?).or (str b).head? := by
    intro a b
    rw [str_append, List.head?_append]
  rw [Outside, not_not, Place.key, hkey]
  cases x <;> rfl

theorem tableOf_update_outside {st : Store} {key : Bytes} (h : Outside key) (v : Option Bytes) :
    tableOf (OrdMap.update st key v) = tableOf st := by
  funext x
  have hne : key ≠ x.key := fun hkey => not_outside_key x (hkey ▸ h)
  rw [tableOf, OrdMap.getElem?_update, if_neg hne]
  rfl

/-- The calls behind a movement of coins stay outside of the table. -/
class Quiet (sm : Sm) : Prop where
  bankTransfer : ∀ block sender recipient amount,
    Only (WritesAt Outside) (sm.bankTransfer block sender recipient amount)
  execute : ∀ block signer sender contract msg,
    Only (WritesAt Outside)
      (sm.wasmProcessMsgNoSubmsg block signer (.execute sender contract msg []))
  dispatch : ∀ block contract checksum msgs response,
    Only (WritesAt Outside)
      (sm.dispatchResponseMessages block contract checksum msgs response false)

attribute [instance] Quiet.bankTransfer Quiet.execute Quiet.dispatch

section Quiet

set_option synthInstance.maxSize 2000

variable (E : Externals) {sm : Sm} (block : BlockInfo)

theorem quiet_transfer [Quiet sm] (sender recipient : AccountId) (amount : List Coin) :
    Only (WritesAt Outside) (Bank.transfer E sm block sender recipient amount) := by
  have (coin : Coin) :
      Only (WritesAt Outside) (Bank.transferCoin E sm block sender recipient coin) := by
    simp only [Bank.transferCoin, Bank.sendCw20, Bank.callCw20]
    refine Only.bind inferInstance fun denom => ?_
    cases denom <;> infer_instance
  rw [Bank.transfer]
  infer_instance

theorem quiet_execute [Quiet sm] (signer sender contract : AccountId) (msg : Bytes) :
    Only (WritesAt Outside)
      (Wasm.processMsgNoSubmsg E sm block signer (.execute sender contract msg [])) := by
  simp only [Wasm.processMsgNoSubmsg, Wasm.processMsgWith, Wasm.execute, Wasm.sendFunds, if_true,
    Wasm.finishResponse, VmCache.execute]
  infer_instance

theorem quiet_dispatch (contract : AccountId) (checksum : Bytes) (msgs : List SubMsg)
    (response : MsgResult) : Only (WritesAt Outside)
      (Wasm.dispatchResponseMessages E sm block contract checksum msgs response false) := by
  rw [Wasm.dispatchResponseMessages]
  cases msgs with
  | nil =>
    rw [if_neg fun h => h.2 rfl]
    exact only_pure response
  | cons sub rest =>
    rw [if_pos ⟨rfl, List.cons_ne_nil _ _⟩]
    exact only_throw _

theorem quiet_sm : ∀ n, Quiet (LayerSdk.sm E n)
  | 0 => ⟨fun _ _ _ _ => only_panic, fun _ _ _ _ _ => only_panic, fun _ _ _ _ _ => only_panic⟩
  | n + 1 =>
    have := quiet_sm n
    ⟨fun block => quiet_transfer E block, fun block => quiet_execute E block, quiet_dispatch E⟩

end Quiet

/-! ## Events -/

/-- The two messages of a handshake. -/
inductive Handshake where
  | openInit
  | openAck
deriving DecidableEq

/-- What a message that went through did. A packet is settled by an
acknowledgement or a timeout. -/
inductive Event where
  | connection (id : String) (step : Handshake)
  | channel (portId channelId : String) (step : Handshake)
  | sent (portId channelId : String) (sequence : Nat)
  | settled (portId channelId : String) (sequence : Nat)
deriving DecidableEq

/-- The event of a message, with the data of its response. -/
def eventOf : IbcMsg → MsgData → Option Event
  | .connectionOpenInit _ _ id .., _ => some (.connection id .openInit)
  | .connectionOpenAck _ id .., _ => some (.connection id .openAck)
  | .channelOpenInit _ p c .., _ => some (.channel p c .openInit)
  | .channelOpenAck _ p c .., _ => some (.channel p c .openAck)
  | .transfer _ p c .., .ibc (.transfer n) => some (.sent p c n)
  | .acknowledgement _ p c n .., _ => some (.settled p c n)
  | .timeout _ p c n .., _ => some (.settled p c n)
  | _, _ => none

variable (E : Externals)

/-- What the table holds for a connection or a channel. -/
def Holds {α : Type} (codec : ProtoCodec α) (raw : Option Bytes) (x : α) : Prop :=
  ∃ b, raw = some b ∧ codec.decode b = .ok x

theorem holds_encode {α : Type} {codec : ProtoCodec α} (x : α) :
    Holds codec (some (codec.encode x)) x := ⟨_, rfl, codec.decode_encode x⟩

/-- What a message found in the table and what it made of it. -/
inductive Effect : Option Event → Table → Table → Prop
  | client (v : Table) (id : String) (raw : Bytes) :
      Effect none v (Function.update v (.client id) (some raw))
  | connInit {v : Table} {id : String} (conn : ConnectionEnd)
      (hfree : v (.connection id) = none) (hinit : conn.state = connectionStateInit) :
      Effect (some (.connection id .openInit)) v
        (Function.update v (.connection id) (some (E.codecs.connectionEnd.encode conn)))
  | connAck {v : Table} {id : String} {conn : ConnectionEnd} (conn' : ConnectionEnd)
      (hfound : Holds E.codecs.connectionEnd (v (.connection id)) conn)
      (hinit : conn.state = connectionStateInit) (hopen : conn'.state = connectionStateOpen) :
      Effect (some (.connection id .openAck)) v
        (Function.update v (.connection id) (some (E.codecs.connectionEnd.encode conn')))
  | chanInit {v : Table} {p c id : String} {conn : ConnectionEnd} (chan : Channel)
      (hconn : Holds E.codecs.connectionEnd (v (.connection id)) conn)
      (hopen : conn.state = connectionStateOpen) (hfree : v (.channel (channelText p c)) = none)
      (hinit : chan.state = channelStateInit) (hhops : chan.connectionHops = [id]) :
      Effect (some (.channel p c .openInit)) v
        (Function.update
          (Function.update v (.channel (channelText p c)) (some (E.codecs.channel.encode chan)))
          (.nextSequence (channelText p c)) (some (u64be 1)))
  | chanAck {v : Table} {p c : String} {chan : Channel} (chan' : Channel)
      (hfound : Holds E.codecs.channel (v (.channel (channelText p c))) chan)
      (hinit : chan.state = channelStateInit) (hopen : chan'.state = channelStateOpen)
      (hhops : chan'.connectionHops = chan.connectionHops) :
      Effect (some (.channel p c .openAck)) v
        (Function.update v (.channel (channelText p c)) (some (E.codecs.channel.encode chan')))
  | sent {v : Table} {p c : String} {chan : Channel} {raw : Bytes} {n : Nat} (com packet : Bytes)
      (hchan : Holds E.codecs.channel (v (.channel (channelText p c))) chan)
      (hopen : chan.state = channelStateOpen)
      (hseq : v (.nextSequence (channelText p c)) = some raw) (hn : u64ofBe raw = some n)
      (hmax : n ≠ u64Max) :
      Effect (some (.sent p c n)) v
        (Function.update
          (Function.update
            (Function.update v (.commitment (channelText p c) n) (some com))
            (.nextSequence (channelText p c)) (some (u64be (n + 1))))
          (.packet (channelText p c) n) (some packet))
  | settled (v : Table) (p c : String) (n : Nat) :
      Effect (some (.settled p c n)) v
        (Function.update (Function.update v (.commitment (channelText p c) n) none)
          (.packet (channelText p c) n) none)

/-! ## The keeper -/

section Keeper

/-- The storage has the table `v`. -/
abbrev At (v : Table) : Store → Prop := fun st => tableOf st = v

abbrev Failed : PulsarError → Store → Prop := fun _ _ => True

variable {v : Table} {x : Place}

theorem spec_readAt {e : IbcError} :
    Spec id (At v) (readOr x.key e) (fun raw st => v x = some raw ∧ At v st) Failed :=
  spec_readOr (fun _ _ hv hraw => ⟨(congrFun hv x).symm.trans hraw, hv⟩) fun _ _ _ => trivial

theorem spec_getAt : Spec id (At v) (Storage.get x.key : StorageM PulsarError (Option Bytes))
    (fun raw st => v x = raw ∧ At v st) Failed :=
  .get (fun _ hv => ⟨(congrFun hv x).symm, hv⟩) fun _ _ _ => trivial

theorem spec_setAt {raw : Bytes} :
    Spec id (At v) (Storage.set x.key raw : StorageM PulsarError Unit)
      (fun _ => At (Function.update v x (some raw))) Failed :=
  .set (fun st hv => (tableOf_update st x _).trans (by rw [hv])) fun _ _ _ => trivial

theorem spec_removeAt : Spec id (At v) (Storage.remove x.key : StorageM PulsarError Unit)
    (fun _ => At (Function.update v x none)) Failed :=
  .remove (fun st hv => (tableOf_update st x _).trans (by rw [hv])) fun _ _ _ => trivial

variable {α : Type} {clientId id' p c : String} {height : Nat}

/-- A stored record is read and decoded. -/
theorem spec_loadAt {β : Type} {codec : ProtoCodec α} {name : String} {e : IbcError}
    {f : α → StorageM PulsarError β} {Q : β → Store → Prop}
    (hf : ∀ a, Holds codec (v x) a → Spec id (At v) (f a) Q Failed) : Spec id (At v) (do
      let raw ← readOr x.key e
      let a ← decodeAs codec name raw
      f a) Q Failed := by
  refine .bind spec_readAt fun raw => .of_fact fun hraw => ?_
  refine .bind (spec_decodeAs (Q := fun a st => codec.decode raw = .ok a ∧ At v st)
    (fun a _ ha hv => ⟨ha, hv⟩) fun _ _ _ => trivial) fun a => .of_fact fun ha => ?_
  exact hf a ⟨raw, hraw, ha⟩

/-- A key must be free. -/
theorem spec_freeAt {e : PulsarError} {p : StorageM PulsarError α} {Q : α → Store → Prop}
    (hp : v x = none → Spec id (At v) p Q Failed) : Spec id (At v) (do
      match ← (Storage.get x.key : StorageM PulsarError (Option Bytes)) with
      | some _ => throw e
      | none => p) Q Failed := by
  refine .bind spec_getAt fun raw => .of_fact fun hraw => ?_
  cases raw with
  | some raw => exact .throw fun _ _ => trivial
  | none => exact hp hraw

/-- The effect, once the table after it is known. -/
theorem at_effect {event : Option Event} {v' : Table} {st : Store} (h : Effect E event v v')
    (hst : At v' st) : Effect E event v (tableOf st) := by
  rw [hst]
  exact h

variable {E}

theorem spec_createClient {chainId : String} : Spec id (At v) (createClient clientId chainId height)
      (fun _ st => Effect E none v (tableOf st)) Failed := by
  rw [createClient, clientStatePath_eq]
  refine spec_freeAt fun _ => ?_
  exact spec_setAt.post fun _ _ => at_effect E (.client ..)

theorem spec_updateClient : Spec id (At v) (updateClient E clientId height)
      (fun _ st => Effect E none v (tableOf st)) Failed := by
  rw [updateClient, clientStatePath_eq]
  refine .bind spec_readAt fun raw => .of_fact fun _ => ?_
  exact spec_setAt.post fun _ _ => at_effect E (.client ..)

theorem spec_connOpenInit {ccId cconnId cprefix : String} :
    Spec id (At v) (connOpenInit E clientId id' ccId cconnId cprefix)
      (fun _ st => Effect E (some (.connection id' .openInit)) v (tableOf st)) Failed := by
  rw [connOpenInit, connectionPath_eq]
  refine spec_freeAt fun hfree => ?_
  exact spec_setAt.post fun _ _ => at_effect E (.connInit _ hfree rfl)

theorem spec_connOpenAck {cconnId : String} : Spec id (At v) (connOpenAck E id' cconnId)
      (fun _ st => Effect E (some (.connection id' .openAck)) v (tableOf st)) Failed := by
  rw [connOpenAck, connectionPath_eq]
  refine spec_loadAt fun conn hfound => ?_
  refine .ite (fun _ => .throw fun _ _ => trivial) fun hinit => ?_
  exact spec_setAt.post fun _ _ => at_effect E (.connAck _ hfound (not_not.mp hinit) rfl)

theorem spec_chanOpenInitAt {p' c' ordering version : String} :
    Spec id (At v) (chanOpenInit E p c id' p' c' ordering version)
      (fun _ st => Effect E (some (.channel p c .openInit)) v (tableOf st)) Failed := by
  rw [chanOpenInit, connectionPath_eq, channelPath_eq, nextSequenceSendPath_eq]
  refine spec_loadAt fun conn hconn => ?_
  refine .ite (fun _ => .throw fun _ _ => trivial) fun hopen => ?_
  refine spec_freeAt fun hfree => ?_
  refine .bind spec_setAt fun _ => ?_
  exact spec_setAt.post fun _ _ =>
    at_effect E (.chanInit _ hconn (not_not.mp hopen) hfree rfl rfl)

theorem spec_chanOpenAck {c' version : String} : Spec id (At v) (chanOpenAck E p c c' version)
      (fun _ st => Effect E (some (.channel p c .openAck)) v (tableOf st)) Failed := by
  rw [chanOpenAck, channelPath_eq]
  refine spec_loadAt fun chan hfound => ?_
  refine .ite (fun _ => .throw fun _ _ => trivial) fun hinit => ?_
  exact spec_setAt.post fun _ _ =>
    at_effect E (.chanAck _ hfound (not_not.mp hinit) rfl rfl)

theorem spec_sendPacket {chan : Channel} {data : Bytes} {time : Nat}
    (hchan : Holds E.codecs.channel (v (.channel (channelText p c))) chan)
    (hopen : chan.state = channelStateOpen) :
    Spec id (At v) (sendPacket E chan p c data height time)
      (fun n st => Effect E (some (.sent p c n)) v (tableOf st)) Failed := by
  rw [sendPacket, nextSequenceSendPath_eq]
  refine .bind spec_readAt fun raw => .of_fact fun hseq => ?_
  cases hn : u64ofBe raw with
  | none => exact .panic
  | some n =>
    dsimp only
    rw [packetCommitmentPath_eq, packetDataPath_eq]
    refine .bind spec_setAt fun _ => ?_
    refine .ite (fun _ => .panic) fun hmax => ?_
    refine .bind spec_setAt fun _ => ?_
    refine .bind spec_setAt fun _ => ?_
    exact .pure fun st => at_effect E (.sent _ _ hchan hopen hseq hn hmax)

theorem spec_clearPacket {n : Nat} : Spec id (At v) (clearPacket p c n)
      (fun _ st => Effect E (some (.settled p c n)) v (tableOf st)) Failed := by
  rw [clearPacket, packetCommitmentPath_eq, packetDataPath_eq]
  refine .bind spec_removeAt fun _ => ?_
  exact spec_removeAt.post fun _ _ => at_effect E (.settled ..)

variable {sm : Sm} {block : BlockInfo}

/-- What writes elsewhere leaves the table. -/
theorem spec_outside {p : StorageM PulsarError α} (hp : Only (WritesAt Outside) p) :
    Spec id (At v) p (fun _ => At v) Failed :=
  (hp.keeps fun _ _ w hkey hv => (tableOf_update_outside hkey w).trans hv).conseq (fun _ h => h)
    (fun _ _ h => h) fun _ _ _ => trivial

theorem spec_transfer (hsm : Quiet sm) {sender : AccountId} {token : Coin} {receiver : String}
    {time : Nat} : Spec id (At v) (transfer E sm block sender p c token receiver height time)
      (fun r st => Effect E (some (.sent p c r.1)) v (tableOf st)) Failed := by
  have hchan : Spec id (At v) (openChannel E p c) (fun chan st =>
      (Holds E.codecs.channel (v (.channel (channelText p c))) chan ∧
        chan.state = channelStateOpen) ∧ At v st) Failed := by
    rw [openChannel, channelPath_eq]
    refine spec_loadAt fun chan hfound => ?_
    refine .ite (fun _ => .throw fun _ _ => trivial) fun hopen => ?_
    exact .pure fun st hv => ⟨⟨hfound, not_not.mp hopen⟩, hv⟩
  rw [transfer]
  refine .bind hchan fun chan => .of_fact fun h => ?_
  refine .bind (spec_outside (hsm.bankTransfer ..)) fun _ => ?_
  refine .bind (spec_sendPacket h.1 h.2) fun n => ?_
  exact .pure fun st heffect => heffect

/-- A timeout finds the packet it is for. -/
theorem spec_timeout (hsm : Quiet sm) {n : Nat} : Spec id (At v) (timeout E sm block p c n)
      (fun _ st => v (.packet (channelText p c) n) ≠ none ∧
        Effect E (some (.settled p c n)) v (tableOf st)) Failed := by
  rw [timeout, packetDataPath_eq]
  refine spec_loadAt fun packet hfound => ?_
  refine .bind (spec_outside (only_refundOf E packet)) fun r => ?_
  refine .bind (spec_outside (hsm.bankTransfer ..)) fun _ => ?_
  refine .bind (spec_clearPacket (E := E)) fun _ => ?_
  refine .pure fun st heffect => ⟨?_, heffect⟩
  obtain ⟨raw, hraw, -⟩ := hfound
  exact hraw ▸ Option.some_ne_none raw

/-- A message is for its signer, and answers once its work is done. -/
theorem spec_answered {signer sender : AccountId} {msg : IbcMsg} {p : StorageM PulsarError α}
    {answer : α → MsgResult}
    (hp : Spec id (At v) p (fun a st => Effect E (eventOf msg (answer a).data) v (tableOf st))
      Failed) : Spec id (At v) (do
      ensureEq signer sender (unauthorized E signer)
      let a ← p
      pure (answer a)) (fun res st => Effect E (eventOf msg res.data) v (tableOf st)) Failed := by
  refine .bind (spec_outside inferInstance) fun _ => ?_
  exact .bind hp fun a => .pure fun st heffect => heffect

theorem spec_processMsg (hsm : Quiet sm) {signer : AccountId} (msg : IbcMsg) :
    Spec id (At v) (processMsg E sm block signer msg)
      (fun res st => Effect E (eventOf msg res.data) v (tableOf st)) Failed := by
  cases msg with
  | createClient => exact spec_answered spec_createClient
  | updateClient => exact spec_answered spec_updateClient
  | connectionOpenInit => exact spec_answered spec_connOpenInit
  | connectionOpenAck => exact spec_answered spec_connOpenAck
  | channelOpenInit => exact spec_answered spec_chanOpenInitAt
  | channelOpenAck => exact spec_answered spec_chanOpenAck
  | transfer => exact spec_answered (spec_transfer hsm)
  | acknowledgement => exact spec_answered spec_clearPacket
  | timeout => exact spec_answered ((spec_timeout hsm).post fun _ _ h => h.2)

end Keeper

end Ibc

end LayerSdk

import MhiHost.Talk
import MhiHost.FlashScript
import MhiHost.Commands
import MhiHost.Replies

/-! `firehose_main` in `firehose_protocol.c`, from the flash script to the reset: the device
is told one thing at a time, and is told the next only when it has answered the last. The
device and the file system may answer anything at any point. -/
namespace MhiHost.FlashSession
open Wire (Bytes)
open CString Firehose
open RawImage (Sent padded padding)
open Commands (Request ConfigureCmd)

inductive Query where
  | malloc
  | list (dir : Bytes)
  | look (path : Bytes)
  | hear
  | write (message : Bytes)
  | image (path : Bytes) (sectorSize payload : Nat)
  deriving DecidableEq, Repr

structure Sending where
  allocated : Bool
  file : Option Bytes
  writes : Nat → Nat → Int

/- A reply of no bytes stands for a read that fails or comes too late. -/
def Answer : Query → Type
  | .malloc => Bool
  | .list _ => Option (List Bytes)
  | .look _ => Option Bytes
  | .hear => Bytes
  | .write _ => Int
  | .image _ _ _ => Sending

abbrev Flash := Talk Query Answer
abbrev Step := Exchange Query Answer

def answer (reply : Bytes) : Outcome (Option Cmd) :=
  if reply = [] then .went none
  else match (Replies.fhRecvCmd reply).outcome with
    | .went cmd => .went cmd
    | .left | .lost => .lost

def fhRecvCmd : Flash (Option Cmd) := .ask .hear fun reply =>
  match answer reply with
  | .went cmd => .pure cmd
  | .left | .lost => .stop

def waitTurn (_ : Unit) : Flash (Unit ⊕ Cmd) := fhRecvCmd.bind fun
  | none => .exit
  | some cmd => .pure (if cmd = .log then .inl () else .inr cmd)

def fhWaitResponseCmd (fuel : Nat) : Flash Cmd := .loop waitTurn fuel ()

def drainTurn (_ : Unit) : Flash (Unit ⊕ Unit) := fhRecvCmd.bind fun
  | none => .pure (.inr ())
  | some _ => .pure (.inl ())
def drain (fuel : Nat) : Flash Unit := .loop drainTurn fuel ()

def fhSendCmd (request : Request) : Flash Unit :=
  match Commands.fhSendCmd request with
  | none => .pure ()
  | some message => .ask (.write message) fun _ => .pure ()

/- `strcmp` follows a value that a response may lack, and that a vendor's command overlays
with its own text. -/
def compared (cmd : Cmd) : Flash (ResponseCmd × RawImage.ResponseValue) :=
  match cmd with
  | .response r => match r.value with
    | none => .stop
    | some v => .pure (r,v)
  | .vendor _ | .erase _ | .program _ | .log => .stop

def awaitAck (fuel : Nat) (raw : Option Bool) : Flash Unit :=
  (fhWaitResponseCmd fuel).bind fun cmd =>
  (compared cmd).bind fun rv =>
  if rv.2 = .ack ∧ ∀ b ∈ raw, rv.1.rawmode = b then .pure () else .exit

def cfgCmd (payload : UInt32) : ConfigureCmd := ⟨text "nand",0,0,2048,payload,1,0⟩
def defaultPayload : UInt32 := 8*1024

def fhSendCfgCmd (fuel : Nat) : Flash Nat :=
  (fhSendCmd (.configure (cfgCmd defaultPayload))).bind fun _ =>
  (fhWaitResponseCmd fuel).bind fun first =>
  (compared first).bind fun rv =>
  if rv.2 = .nak ∧ rv.1.maxPayloadSizeToTargetInBytes ≠ 0 then
    (fhSendCmd (.configure (cfgCmd rv.1.maxPayloadSizeToTargetInBytes))).bind fun _ =>
    (awaitAck fuel none).bind fun _ => .pure rv.1.maxPayloadSizeToTargetInBytes.toNat
  else if rv.2 = .ack then .pure defaultPayload.toNat
  else .exit

def slash : UInt8 := 47
def backslash : UInt8 := 92

def joined (dir name : Bytes) : Bytes := (dir ++ slash :: name).take 255
def fullPath (dir filename : Bytes) : Bytes := joined dir (filename.map fun c => if c = backslash then slash else c)

def sentOf (sectorSize payload : Nat) (s : Sending) : Sent :=
  RawImage.fhSendRawmodeImage sectorSize payload s.allocated s.file.isSome s.writes (s.file.getD [])

def imageOf (dir : Bytes) (c : ProgramCmd) : Bytes := fullPath dir (c.filename.getD [])

def fhSendRawmodeImage (dir : Bytes) (payload : Nat) (c : ProgramCmd) : Flash Unit :=
  .ask (.image (imageOf dir c) c.sectorSizeInBytes.toNat payload) fun s =>
    let sent := sentOf c.sectorSizeInBytes.toNat payload s
    if sent.trapped || sent.overrun then .stop else if sent.done then .pure () else .exit

/- The copy of a file name that the script lacks is a copy from a null pointer. -/
def fhFixupProgramCmd (dir : Bytes) : Cmd → Flash Cmd
  | .program c => match c.filename with
    | none => .stop
    | some filename => .ask (.look (fullPath dir filename)) fun file =>
      match RawImage.fhFixupProgramCmd c.sectorSizeInBytes.toNat (Option.elim file 0 List.length) with
      | none => .stop
      | some 0 => .exit
      | some n => .pure (.program {c with numPartitionSectors := UInt32.ofNat n})
  | cmd => .pure cmd

def fixups (dir : Bytes) : List Cmd → Flash (List Cmd)
  | [] => .pure []
  | cmd::cmds => (fhFixupProgramCmd dir cmd).bind fun fixed => (fixups dir cmds).bind fun rest => .pure (fixed :: rest)

def scriptPrefix : Bytes := text "rawprogram"

def qfileFindXmlfile (dir : Bytes) : Flash Bytes := .ask (.list dir) fun names =>
  match (Option.getD names ([] : List Bytes)).find? scriptPrefix.isPrefixOf with
  | none => .exit
  | some name => .pure name

def readScript (dir name : Bytes) : Flash (List Cmd) := .ask (.look (joined dir name)) fun file =>
  match file with
  | none => .exit
  | some content => match (FlashScript.fhParseXmlFile content).outcome with
    | .went table => if table = [] then .exit else .pure (table.map Prod.snd)
    | .left | .lost => .stop

def isVendor : Cmd → Bool
  | .vendor _ => true
  | _ => false
def isErase : Cmd → Bool
  | .erase _ => true
  | _ => false
def programs (cmds : List Cmd) : List ProgramCmd := cmds.filterMap fun
  | .program c => some c
  | _ => none

def sendCommand (fuel : Nat) (cmd : Cmd) : Flash Unit := (fhSendCmd (.command cmd)).bind fun _ => awaitAck fuel none

def sendProgram (dir : Bytes) (fuel payload : Nat) (c : ProgramCmd) : Flash Unit :=
  (fhSendCmd (.command (.program c))).bind fun _ =>
  (awaitAck fuel (some true)).bind fun _ =>
  (fhSendRawmodeImage dir payload c).bind fun _ => awaitAck fuel (some false)

def programTurn (dir : Bytes) (fuel payload : Nat) : Cmd → Flash Unit
  | .program c => sendProgram dir fuel payload c
  | _ => .pure ()

def allocate : Flash Unit := .ask .malloc fun allocated => cond allocated (.pure ()) .exit

def firehoseMain (dir : Bytes) (fuel : Nat) : Flash Unit :=
  allocate.bind fun _ =>
  (qfileFindXmlfile dir).bind fun name =>
  (readScript dir name).bind fun table =>
  (fixups dir table).bind fun cmds =>
  fhRecvCmd.bind fun _ =>
  (drain fuel).bind fun _ =>
  (fhSendCfgCmd fuel).bind fun payload =>
  (Talk.each (fun cmd => if isVendor cmd then sendCommand fuel cmd else .pure ()) cmds).bind fun _ =>
  (Talk.each (fun cmd => if isErase cmd then sendCommand fuel cmd else .pure ()) cmds).bind fun _ =>
  (Talk.each (programTurn dir fuel payload) cmds).bind fun _ =>
  (fhSendCmd .reset).bind fun _ =>
  (fhWaitResponseCmd fuel).bind fun _ => drain fuel

/- What the device is told, one thing after the other: a command that it must acknowledge,
or an image. -/
inductive Item where
  | ask (request : Request) (raw : Option Bool)
  | image (path : Bytes) (sectorSize payload : Nat)
  deriving DecidableEq, Repr

def serve (fuel : Nat) : Item → Flash Unit
  | .ask request raw => (fhSendCmd request).bind fun _ => awaitAck fuel raw
  | .image path sectorSize payload =>
    Talk.bind (.ask (.image path sectorSize payload) fun s =>
      if (sentOf sectorSize payload s).trapped || (sentOf sectorSize payload s).overrun then .stop
      else if (sentOf sectorSize payload s).done then .pure () else .exit) fun _ => awaitAck fuel (some false)

def programItems (dir : Bytes) (payload : Nat) (c : ProgramCmd) : List Item :=
  [.ask (.command (.program c)) (some true),.image (imageOf dir c) c.sectorSizeInBytes.toNat payload]

def plan (dir : Bytes) (payload : Nat) (cmds : List Cmd) : List Item :=
  (cmds.filter isVendor).map (fun cmd => .ask (.command cmd) none) ++
    ((cmds.filter isErase).map (fun cmd => .ask (.command cmd) none) ++ (programs cmds).flatMap (programItems dir payload))

theorem programsServed (dir : Bytes) (fuel payload : Nat) (cmds : List Cmd) :
    Talk.each (programTurn dir fuel payload) cmds =
    Talk.each (serve fuel) ((programs cmds).flatMap (programItems dir payload)) := by
  have both : ∀ c, sendProgram dir fuel payload c = Talk.each (serve fuel) (programItems dir payload c) := by
    intro c
    simp only [programItems,Talk.each,serve,Talk.bindAssoc]
    have last : ∀ m : Flash Unit, (m.bind fun _ => .pure ()) = m := by
      intro m
      induction m with
      | pure _ | exit | stop => rfl
      | ask q next ih => simp [Talk.bind,ih]
    simp only [last]
    rfl
  rw [Talk.eachFlatMap,← funext both]
  induction cmds with
  | nil => rfl
  | cons cmd cmds ih =>
    cases cmd with
    | program c => simp only [Talk.each,programTurn,programs,List.filterMap_cons] at ih ⊢; rw [ih]
    | vendor _ | erase _ | response _ | log => simpa only [Talk.each,programTurn,programs,List.filterMap_cons,Talk.bind] using ih

theorem loopsServe (dir : Bytes) (fuel payload : Nat) (cmds : List Cmd) (rest : Flash Unit) :
    ((Talk.each (fun cmd => if isVendor cmd then sendCommand fuel cmd else .pure ()) cmds).bind fun _ =>
      (Talk.each (fun cmd => if isErase cmd then sendCommand fuel cmd else .pure ()) cmds).bind fun _ =>
      (Talk.each (programTurn dir fuel payload) cmds).bind fun _ => rest) =
    (Talk.each (serve fuel) (plan dir payload cmds)).bind fun _ => rest := by
  rw [plan,Talk.eachAppend,Talk.eachAppend,Talk.eachMap,Talk.eachMap,Talk.bindAssoc,programsServed,Talk.eachFiltered,
    Talk.eachFiltered]
  simp only [Talk.bindAssoc]
  rfl

def hears (replies : List Bytes) : List Step := replies.map fun reply => ⟨.hear,reply⟩

def Logs (replies : List Bytes) : Prop := ∀ reply ∈ replies, answer reply = .went (some .log)

def Answered (cmd : Cmd) (es : List Step) : Prop :=
  ∃ logs last, es = hears (logs ++ [last]) ∧ Logs logs ∧ answer last = .went (some cmd) ∧ cmd ≠ .log

def Drained (es : List Step) : Prop :=
  ∃ replies last, es = hears (replies ++ [last]) ∧ (∀ reply ∈ replies, ∃ cmd, answer reply = .went (some cmd)) ∧
    answer last = .went none

def Acknowledges (raw : Option Bool) (cmd : Cmd) : Prop :=
  ∃ r, cmd = .response r ∧ r.value = some .ack ∧ ∀ b ∈ raw, r.rawmode = b

def Denies (raw : Option Bool) (reply : Bytes) : Prop :=
  answer reply = .went none ∨ ∃ r v, answer reply = .went (some (.response r)) ∧ r.value = some v ∧
    ¬(v = .ack ∧ ∀ b ∈ raw, r.rawmode = b)

inductive Offered (request : Request) : List Step → Prop where
  | sent {message : Bytes} (ret : Int) : Commands.fhSendCmd request = some message → Offered request [⟨.write message,ret⟩]
  | unsent : Commands.fhSendCmd request = none → Offered request []

structure Taken (sectorSize payload : Nat) (s : Sending) : Prop where
  done : (sentOf sectorSize payload s).done = true
  trapped : (sentOf sectorSize payload s).trapped = false
  overrun : (sentOf sectorSize payload s).overrun = false

inductive Performed : Item → List Step → Prop where
  | ask {request : Request} {raw : Option Bool} {x y : List Step} {cmd : Cmd} :
    Offered request x → Answered cmd y → Acknowledges raw cmd → Performed (.ask request raw) (x ++ y)
  | image {path : Bytes} {sectorSize payload : Nat} {s : Sending} {y : List Step} {cmd : Cmd} :
    Taken sectorSize payload s → Answered cmd y → Acknowledges (some false) cmd →
      Performed (.image path sectorSize payload) (⟨.image path sectorSize payload,s⟩ :: y)

def Unanswered {β : Type} (denies : Bytes → Prop) (o : Outcome β) (es : List Step) : Prop :=
  ∃ logs rest, es = hears (logs ++ rest) ∧ Logs logs ∧ rest.length ≤ 1 ∧ (o = .left → ∃ last ∈ rest, denies last)

inductive Interrupted (o : Outcome Unit) : Item → List Step → Prop where
  | ask {request : Request} {raw : Option Bool} {x y : List Step} :
    Offered request x → Unanswered (Denies raw) o y → Interrupted o (.ask request raw) (x ++ y)
  | refused {path : Bytes} {sectorSize payload : Nat} {s : Sending} :
    ¬Taken sectorSize payload s → (o = .left → (sentOf sectorSize payload s).done = false) →
      Interrupted o (.image path sectorSize payload) [⟨.image path sectorSize payload,s⟩]
  | image {path : Bytes} {sectorSize payload : Nat} {s : Sending} {y : List Step} :
    Taken sectorSize payload s → Unanswered (Denies (some false)) o y →
      Interrupted o (.image path sectorSize payload) (⟨.image path sectorSize payload,s⟩ :: y)

inductive Configured : Nat → List Step → Prop where
  | accepted {x y : List Step} {r : ResponseCmd} : Offered (.configure (cfgCmd defaultPayload)) x → Answered (.response r) y →
      r.value = some .ack → Configured defaultPayload.toNat (x ++ y)
  | negotiated {x y z : List Step} {r : ResponseCmd} : Offered (.configure (cfgCmd defaultPayload)) x → Answered (.response r) y →
      r.value = some .nak → r.maxPayloadSizeToTargetInBytes ≠ 0 →
      Performed (.ask (.configure (cfgCmd r.maxPayloadSizeToTargetInBytes)) none) z →
      Configured r.maxPayloadSizeToTargetInBytes.toNat (x ++ (y ++ z))

def Declines (reply : Bytes) : Prop :=
  answer reply = .went none ∨ ∃ r v, answer reply = .went (some (.response r)) ∧ r.value = some v ∧ v ≠ .ack ∧
    ¬(v = .nak ∧ r.maxPayloadSizeToTargetInBytes ≠ 0)

inductive Unconfigured (o : Outcome Unit) : List Step → Prop where
  | first {x y : List Step} : Offered (.configure (cfgCmd defaultPayload)) x → Unanswered Declines o y → Unconfigured o (x ++ y)
  | second {x y z : List Step} {r : ResponseCmd} : Offered (.configure (cfgCmd defaultPayload)) x → Answered (.response r) y →
      r.value = some .nak → r.maxPayloadSizeToTargetInBytes ≠ 0 →
      Interrupted o (.ask (.configure (cfgCmd r.maxPayloadSizeToTargetInBytes)) none) z → Unconfigured o (x ++ (y ++ z))

inductive Fixed (dir : Bytes) : List Cmd → List Cmd → List Step → Prop where
  | nil : Fixed dir [] [] []
  | program {c : ProgramCmd} {filename file : Bytes} {n : Nat} {cmds fixed : List Cmd} {es : List Step} :
    c.filename = some filename → RawImage.fhFixupProgramCmd c.sectorSizeInBytes.toNat file.length = some (n+1) →
      Fixed dir cmds fixed es → Fixed dir (.program c :: cmds) (.program {c with numPartitionSectors := UInt32.ofNat (n+1)} :: fixed)
        (⟨.look (fullPath dir filename),some file⟩ :: es)
  | other {cmd : Cmd} {cmds fixed : List Cmd} {es : List Step} :
    (∀ c, cmd ≠ .program c) → Fixed dir cmds fixed es → Fixed dir (cmd :: cmds) (cmd :: fixed) es

inductive Prepared (dir : Bytes) : List Cmd → List Step → Prop where
  | intro {names : List Bytes} {name file : Bytes} {table : FlashScript.Table} {cmds : List Cmd} {looks greeting : List Step}
    {first : Bytes} {cmd : Option Cmd} : names.find? scriptPrefix.isPrefixOf = some name →
      (FlashScript.fhParseXmlFile file).outcome = .went table → table ≠ [] → Fixed dir (table.map Prod.snd) cmds looks →
      answer first = .went cmd → Drained greeting →
      Prepared dir cmds (⟨.malloc,true⟩ :: ⟨.list dir,some names⟩ :: ⟨.look (joined dir name),some file⟩ ::
        (looks ++ ⟨.hear,first⟩ :: greeting))

inductive Complete (dir : Bytes) : List Step → Prop where
  | intro {cmds : List Cmd} {payload : Nat} {a b c d e f : List Step} {cmd : Cmd} : Prepared dir cmds a → Configured payload b →
      Parts Performed (plan dir payload cmds) c → Offered .reset d → Answered cmd e → Drained f →
      Complete dir (a ++ (b ++ (c ++ (d ++ (e ++ f)))))

def Sends : Query → Prop
  | .malloc | .list _ | .look _ | .hear => False
  | .write _ | .image _ _ _ => True
instance (q : Query) : Decidable (Sends q) := by cases q <;> unfold Sends <;> infer_instance

def Silent (es : List Step) : Prop := ∀ step ∈ es, ¬Sends step.1

inductive Missing (dir : Bytes) : Step → Prop where
  | memory : Missing dir ⟨.malloc,false⟩
  | script {names : Option (List Bytes)} : (Option.getD names []).find? scriptPrefix.isPrefixOf = none →
      Missing dir ⟨.list dir,names⟩
  | content {name : Bytes} : Missing dir ⟨.look (joined dir name),none⟩
  | commands {name file : Bytes} : (FlashScript.fhParseXmlFile file).outcome = .went [] →
      Missing dir ⟨.look (joined dir name),some file⟩
  | image {filename : Bytes} {file : Option Bytes} {sectorSize : Nat} :
    RawImage.fhFixupProgramCmd sectorSize (Option.elim file 0 List.length) = some 0 →
      Missing dir ⟨.look (fullPath dir filename),file⟩

def EndsMissing (dir : Bytes) (es : List Step) : Prop := ∃ front last, es = front ++ [last] ∧ Missing dir last

structure Unprepared (dir : Bytes) (o : Outcome Unit) (es : List Step) : Prop where
  silent : Silent es
  missing : o = .left → EndsMissing dir es

structure Unreset (o : Outcome Unit) (es : List Step) : Prop where
  silent : Silent es
  unanswered : o = .left → Unanswered (fun reply => answer reply = .went none) o es

/- A run that does not come to its end is cut off inside one of its parts. -/
inductive Cut (dir : Bytes) (o : Outcome Unit) : List Step → Prop where
  | preparing {a : List Step} : Unprepared dir o a → Cut dir o a
  | configuring {cmds : List Cmd} {a b : List Step} : Prepared dir cmds a → Unconfigured o b → Cut dir o (a ++ b)
  | serving {cmds : List Cmd} {payload : Nat} {a b c : List Step} : Prepared dir cmds a → Configured payload b →
      CutOff Performed (Interrupted o) (plan dir payload cmds) c → Cut dir o (a ++ (b ++ c))
  | resetting {cmds : List Cmd} {payload : Nat} {a b c d e : List Step} : Prepared dir cmds a → Configured payload b →
      Parts Performed (plan dir payload cmds) c → Offered .reset d → Unreset o e → Cut dir o (a ++ (b ++ (c ++ (d ++ e))))

section Parts
variable {es : List Step} {fuel : Nat}

theorem answerEnds (reply : Bytes) : answer reply ≠ .left := by
  unfold answer
  split
  · exact nofun
  · split <;> exact nofun

@[simp] theorem recvLeaves {o : Outcome (Option Cmd)} : fhRecvCmd.Leaves es o ↔ ∃ reply, es = hears [reply] ∧
    o = answer reply := by
  simp only [fhRecvCmd,Talk.askLeaves]
  refine exists_congr fun reply => ?_
  have one : hears [reply] = [⟨.hear,reply⟩] := rfl
  cases out : answer reply with
  | went cmd => simp [one]
  | left => exact absurd out (answerEnds reply)
  | lost => simp [one]

@[simp] theorem sendLeaves {request : Request} {o : Outcome Unit} :
    (fhSendCmd request).Leaves es o ↔ Offered request es ∧ o = .went () := by
  unfold fhSendCmd
  cases message : Commands.fhSendCmd request with
  | none =>
    simp only [Talk.pureLeaves]
    refine and_congr_left fun _ => ⟨?_,?_⟩
    · rintro rfl
      exact .unsent message
    · rintro (⟨_,same⟩ | _)
      · rw [message] at same
        cases same
      · rfl
  | some m =>
    simp only [Talk.askLeaves,Talk.pureLeaves]
    constructor
    · rintro ⟨ret,_,rfl,rfl,rfl⟩
      exact ⟨.sent ret message,rfl⟩
    · rintro ⟨⟨ret,same⟩ | same,rfl⟩
      · rw [message] at same
        cases same
        exact ⟨ret,[],rfl,rfl,rfl⟩
      · rw [message] at same
        cases same

def waited : Outcome (Option Cmd) → Outcome (Unit ⊕ Cmd)
  | .went none => .left
  | .went (some cmd) => .went (if cmd = .log then .inl () else .inr cmd)
  | .left | .lost => .lost

def drained : Outcome (Option Cmd) → Outcome (Unit ⊕ Unit)
  | .went none => .went (.inr ())
  | .went (some _) => .went (.inl ())
  | .left | .lost => .lost

theorem turnLeaves {β : Type} {f : Option Cmd → Flash β} {g : Outcome (Option Cmd) → Outcome β} (lost : g .lost = .lost)
    (each : ∀ cmd x o, (f cmd).Leaves x o ↔ x = [] ∧ o = g (.went cmd)) {o : Outcome β} :
    (fhRecvCmd.bind f).Leaves es o ↔ ∃ reply, es = hears [reply] ∧ o = g (answer reply) := by
  simp only [Talk.bindLeaves,recvLeaves,each]
  constructor
  · rintro (⟨cmd,x,_,rfl,⟨reply,rfl,out⟩,rfl,rfl⟩ | ⟨⟨reply,rfl,out⟩,rfl⟩ | ⟨⟨reply,rfl,out⟩,rfl⟩)
    · exact ⟨reply,by simp,by rw [out]⟩
    · exact absurd out.symm (answerEnds reply)
    · exact ⟨reply,rfl,by rw [← out,lost]⟩
  · rintro ⟨reply,rfl,rfl⟩
    cases out : answer reply with
    | went cmd => exact .inl ⟨cmd,_,[],(List.append_nil _).symm,⟨reply,rfl,out.symm⟩,rfl,rfl⟩
    | left => exact absurd out (answerEnds reply)
    | lost => exact .inr (.inr ⟨⟨reply,rfl,out.symm⟩,lost⟩)

theorem waitLeaves {u : Unit} {o : Outcome (Unit ⊕ Cmd)} :
    (waitTurn u).Leaves es o ↔ ∃ reply, es = hears [reply] ∧ o = waited (answer reply) := by
  refine turnLeaves rfl fun cmd x o => ?_
  cases cmd <;> rfl

theorem drainLeaves {u : Unit} {o : Outcome (Unit ⊕ Unit)} :
    (drainTurn u).Leaves es o ↔ ∃ reply, es = hears [reply] ∧ o = drained (answer reply) := by
  refine turnLeaves rfl fun cmd x o => ?_
  cases cmd <;> rfl

theorem waitedGoes {reply : Bytes} {u : Unit} : .went (.inl u) = waited (answer reply) ↔ answer reply = .went (some .log) := by
  cases answer reply with
  | went cmd => cases cmd with
    | none => simp [waited]
    | some cmd => by_cases log : cmd = .log <;> simp [waited,log]
  | left | lost => simp [waited]

theorem waitedEnds {reply : Bytes} {cmd : Cmd} :
    .went (.inr cmd) = waited (answer reply) ↔ answer reply = .went (some cmd) ∧ cmd ≠ .log := by
  cases answer reply with
  | went cmd' => cases cmd' with
    | none => simp [waited]
    | some cmd' =>
      by_cases log : cmd' = .log
      · simp [waited,log,eq_comm]
      · simp only [waited,log,if_false,Outcome.went.injEq,Sum.inr.injEq,Option.some.injEq]
        constructor
        · rintro rfl
          exact ⟨rfl,log⟩
        · exact fun both => both.1.symm
  | left | lost => simp [waited]

theorem waitedLeft {reply : Bytes} : .left = waited (answer reply) ↔ answer reply = .went none := by
  cases answer reply with
  | went cmd => cases cmd <;> simp [waited]
  | left | lost => simp [waited]

theorem hearsAppend (a b : List Bytes) : hears (a ++ b) = hears a ++ hears b := List.map_append

theorem waitAnswered {u : Unit} {cmd : Cmd} (turns : Talk.Turns waitTurn u es cmd) : Answered cmd es := by
  induction turns with
  | last here =>
    obtain ⟨reply,rfl,out⟩ := waitLeaves.mp here
    obtain ⟨out,other⟩ := waitedEnds.mp out
    exact ⟨[],reply,rfl,nofun,out,other⟩
  | more here _ ih =>
    obtain ⟨reply,rfl,out⟩ := waitLeaves.mp here
    obtain ⟨logs,last,rfl,all,out',other⟩ := ih
    refine ⟨reply :: logs,last,rfl,?_,out',other⟩
    exact List.forall_mem_cons.mpr ⟨waitedGoes.mp out,all⟩

theorem answeredWait {cmd : Cmd} (answered : Answered cmd es) : Talk.Turns waitTurn () es cmd := by
  obtain ⟨logs,last,rfl,all,out,other⟩ := answered
  induction logs with
  | nil => exact .last (waitLeaves.mpr ⟨last,rfl,waitedEnds.mpr ⟨out,other⟩⟩)
  | cons log logs ih =>
    obtain ⟨here,later⟩ := List.forall_mem_cons.mp all
    exact .more (waitLeaves.mpr ⟨log,rfl,waitedGoes.mpr here⟩) (ih later)

theorem drainDrained {u : Unit} (turns : Talk.Turns drainTurn u es ()) : Drained es := by
  generalize ends : () = v at turns
  induction turns with
  | last here =>
    obtain ⟨reply,rfl,out⟩ := drainLeaves.mp here
    refine ⟨[],reply,rfl,nofun,?_⟩
    cases same : answer reply with
    | went cmd => cases cmd <;> simp_all [drained]
    | left | lost => simp_all [drained]
  | more here _ ih =>
    obtain ⟨reply,rfl,out⟩ := drainLeaves.mp here
    obtain ⟨replies,last,rfl,all,out'⟩ := ih ends
    refine ⟨reply :: replies,last,rfl,List.forall_mem_cons.mpr ⟨?_,all⟩,out'⟩
    cases same : answer reply with
    | went cmd => cases cmd <;> simp_all [drained]
    | left | lost => simp_all [drained]

theorem drainedDrain (quiet : Drained es) : Talk.Turns drainTurn () es () := by
  obtain ⟨replies,last,rfl,all,out⟩ := quiet
  induction replies with
  | nil => exact .last (drainLeaves.mpr ⟨last,rfl,by simp [out,drained]⟩)
  | cons reply replies ih =>
    obtain ⟨⟨cmd,here⟩,later⟩ := List.forall_mem_cons.mp all
    exact .more (drainLeaves.mpr ⟨reply,rfl,by simp [here,drained]⟩) (ih later)

theorem waitBusy (u : Unit) (o : Outcome (Unit ⊕ Cmd)) : ¬(waitTurn u).Leaves [] o := by
  intro idle
  obtain ⟨reply,same,-⟩ := waitLeaves.mp idle
  cases same

theorem drainBusy (u : Unit) (o : Outcome (Unit ⊕ Unit)) : ¬(drainTurn u).Leaves [] o := by
  intro idle
  obtain ⟨reply,same,-⟩ := drainLeaves.mp idle
  cases same

theorem waitEnough {cmd : Cmd} (answered : Answered cmd es) (enough : es.length < fuel) :
    (fhWaitResponseCmd fuel).Leaves es (.went cmd) :=
  Talk.loopEnough waitBusy (answeredWait answered) enough

theorem drainEnough (quiet : Drained es) (enough : es.length < fuel) : (drain fuel).Leaves es (.went ()) :=
  Talk.loopEnough drainBusy (drainedDrain quiet) enough

theorem hearsAll {turns : List (List Step)} {p : Bytes → Prop} (all : ∀ x ∈ turns, ∃ reply, x = hears [reply] ∧ p reply) :
    ∃ replies, turns.flatten = hears replies ∧ ∀ reply ∈ replies, p reply := by
  induction turns with
  | nil => exact ⟨[],rfl,nofun⟩
  | cons x turns ih =>
    obtain ⟨⟨reply,rfl,here⟩,later⟩ := List.forall_mem_cons.mp all
    obtain ⟨replies,same,rest⟩ := ih later
    exact ⟨reply :: replies,by rw [List.flatten_cons,same]; rfl,List.forall_mem_cons.mpr ⟨here,rest⟩⟩

theorem waitCut {o : Outcome Cmd} (short : ∀ cmd, o ≠ .went cmd) (ran : (fhWaitResponseCmd fuel).Leaves es o) :
    ∃ logs rest, es = hears (logs ++ rest) ∧ Logs logs ∧ rest.length ≤ 1 ∧
    (o = .left → ∃ last ∈ rest, answer last = .went none) := by
  obtain ⟨_,turns,y,rfl,before,last⟩ := Talk.loopCut short ran
  obtain ⟨logs,same,all⟩ : ∃ logs, turns.flatten = hears logs ∧ Logs logs := by
    refine hearsAll fun x inside => ?_
    obtain ⟨_,_,here⟩ := before x inside
    obtain ⟨reply,rfl,out⟩ := waitLeaves.mp here
    exact ⟨reply,rfl,waitedGoes.mp out⟩
  rw [same]
  rcases last with ⟨rfl,rfl⟩ | ⟨here,rfl⟩ | ⟨here,rfl⟩
  · exact ⟨logs,[],by simp,all,Nat.zero_le _,nofun⟩
  · obtain ⟨reply,rfl,out⟩ := waitLeaves.mp here
    exact ⟨logs,[reply],(hearsAppend _ _).symm,all,Nat.le_refl _,fun _ => ⟨reply,by simp,waitedLeft.mp out⟩⟩
  · obtain ⟨reply,rfl,-⟩ := waitLeaves.mp here
    exact ⟨logs,[reply],(hearsAppend _ _).symm,all,Nat.le_refl _,nofun⟩

section Replied
variable {β : Type} {f : ResponseCmd × RawImage.ResponseValue → Flash β}

def replied (fuel : Nat) (f : ResponseCmd × RawImage.ResponseValue → Flash β) : Flash β :=
  (fhWaitResponseCmd fuel).bind fun cmd => (compared cmd).bind f

theorem repliedCut {o : Outcome β} (ran : (replied fuel f).Leaves es o) :
    (∃ r v x y, es = x ++ y ∧ Answered (.response r) x ∧ r.value = some v ∧ (f (r,v)).Leaves y o) ∨
      (∀ b, o ≠ .went b) ∧ Unanswered (fun reply => answer reply = .went none) o es := by
  have unserved : ∀ b : β, (.lost : Outcome β) ≠ .went b := fun b => by simp
  rcases Talk.bindLeaves.mp ran with ⟨cmd,x,y,rfl,first,later⟩ | ⟨here,rfl⟩ | ⟨here,rfl⟩
  · have answered := waitAnswered (Talk.loopTurns first)
    have lost : y = [] ∧ o = .lost → (∀ b, o ≠ .went b) ∧ Unanswered (fun reply => answer reply = .went none) o (x ++ y) := by
      rintro ⟨rfl,rfl⟩
      obtain ⟨logs,last,rfl,all,-,-⟩ := answered
      exact ⟨unserved,logs,[last],List.append_nil _,all,Nat.le_refl _,fun same => by simp at same⟩
    cases cmd with
    | response r =>
      cases value : r.value with
      | none =>
        simp only [compared,value,Talk.bind,Talk.stopLeaves] at later
        exact .inr (lost later)
      | some v =>
        simp only [compared,value,Talk.bind] at later
        exact .inl ⟨r,v,x,y,rfl,answered,value,later⟩
    | vendor _ | erase _ | program _ | log => exact .inr (lost later)
  · exact .inr ⟨fun b => by simp,by simpa [Unanswered] using waitCut (o := .left) (fun cmd => by simp) here⟩
  · exact .inr ⟨unserved,by simpa [Unanswered] using waitCut (o := .lost) (fun cmd => by simp) here⟩

theorem repliedEnough {r : ResponseCmd} {v : RawImage.ResponseValue} {x y : List Step} {o : Outcome β}
    (answered : Answered (.response r) x)
    (value : r.value = some v) (enough : x.length < fuel) (later : (f (r,v)).Leaves y o) :
    (replied fuel f).Leaves (x ++ y) o := by
  refine Talk.bindLeaves.mpr (.inl ⟨_,x,y,rfl,waitEnough answered enough,?_⟩)
  simpa only [compared,value,Talk.bind] using later

theorem denied {r : ResponseCmd} {x : List Step} {o : Outcome β} {denies : Bytes → Prop} (answered : Answered (.response r) x)
    (bad : ∀ last, answer last = .went (some (.response r)) → denies last) : Unanswered denies o x := by
  obtain ⟨logs,last,rfl,all,out,-⟩ := answered
  exact ⟨logs,[last],rfl,all,Nat.le_refl _,fun _ => ⟨last,by simp,bad last out⟩⟩

theorem unansweredMono {o : Outcome β} {p q : Bytes → Prop} (weaker : ∀ reply, p reply → q reply) (un : Unanswered p o es) :
    Unanswered q o es := by
  obtain ⟨logs,rest,rfl,all,short,last⟩ := un
  refine ⟨logs,rest,rfl,all,short,fun out => ?_⟩
  obtain ⟨last,inside,here⟩ := last out
  exact ⟨last,inside,weaker last here⟩

end Replied

section Await
variable {raw : Option Bool}

theorem awaitWent (ran : (awaitAck fuel raw).Leaves es (.went ())) : ∃ cmd, Answered cmd es ∧ Acknowledges raw cmd := by
  rcases repliedCut ran with ⟨r,v,x,y,rfl,answered,value,later⟩ | ⟨short,-⟩
  · simp only at later
    split at later
    · rename_i good
      obtain ⟨rfl,-⟩ := later
      rw [List.append_nil]
      exact ⟨_,answered,r,rfl,good.1 ▸ value,good.2⟩
    · simp at later
  · exact absurd rfl (short ())

theorem awaitEnough {cmd : Cmd} (answered : Answered cmd es) (good : Acknowledges raw cmd) (enough : es.length < fuel) :
    (awaitAck fuel raw).Leaves es (.went ()) := by
  obtain ⟨r,rfl,value,mode⟩ := good
  rw [← List.append_nil es]
  refine repliedEnough answered value enough ?_
  rw [if_pos ⟨rfl,mode⟩]
  exact ⟨rfl,rfl⟩

theorem awaitCut {o : Outcome Unit} (short : o ≠ .went ()) (ran : (awaitAck fuel raw).Leaves es o) :
    Unanswered (Denies raw) o es := by
  rcases repliedCut ran with ⟨r,v,x,y,rfl,answered,value,later⟩ | ⟨-,un⟩
  · simp only at later
    split at later
    · exact absurd later.2 short
    · rename_i bad
      obtain ⟨rfl,rfl⟩ := later
      rw [List.append_nil]
      exact denied answered fun last out => .inr ⟨r,v,out,value,bad⟩
  · exact unansweredMono (fun _ => .inl) un

end Await

theorem serveWent {item : Item} (ran : (serve fuel item).Leaves es (.went ())) : Performed item es := by
  cases item with
  | ask request raw =>
    obtain ⟨_,x,y,rfl,first,later⟩ := Talk.bindWent.mp ran
    obtain ⟨cmd,answered,good⟩ := awaitWent later
    exact .ask (sendLeaves.mp first).1 answered good
  | image path sectorSize payload =>
    obtain ⟨_,x,y,rfl,first,later⟩ := Talk.bindWent.mp ran
    obtain ⟨cmd,answered,good⟩ := awaitWent later
    obtain ⟨s,rest,rfl,last⟩ := Talk.askLeaves.mp first
    split at last
    · simp at last
    · rename_i sound
      split at last
      · rename_i done
        obtain ⟨rfl,-⟩ := last
        simp only [Bool.or_eq_true,not_or,Bool.not_eq_true] at sound
        exact .image ⟨done,sound.1,sound.2⟩ answered good
      · simp at last

theorem serveEnough {item : Item} (done : Performed item es) (enough : es.length < fuel) :
    (serve fuel item).Leaves es (.went ()) := by
  cases done with
  | ask first answered good =>
    rw [List.length_append] at enough
    exact Talk.bindWent.mpr ⟨(),_,_,rfl,sendLeaves.mpr ⟨first,rfl⟩,awaitEnough answered good (by omega)⟩
  | @image path sectorSize payload s y cmd taken answered good =>
    rw [List.length_cons] at enough
    refine Talk.bindWent.mpr ⟨(),[_],y,rfl,Talk.askLeaves.mpr ⟨s,[],rfl,?_⟩,awaitEnough answered good (by omega)⟩
    simp [taken.done,taken.trapped,taken.overrun]

theorem serveCut {item : Item} {o : Outcome Unit} (short : o ≠ .went ()) (ran : (serve fuel item).Leaves es o) :
    Interrupted o item es := by
  cases item with
  | ask request raw =>
    rcases Talk.bindLeaves.mp ran with ⟨_,x,y,rfl,first,later⟩ | ⟨here,-⟩ | ⟨here,-⟩
    · exact .ask (sendLeaves.mp first).1 (awaitCut short later)
    · cases (sendLeaves.mp here).2
    · cases (sendLeaves.mp here).2
  | image path sectorSize payload =>
    rcases Talk.bindLeaves.mp ran with ⟨_,x,y,rfl,first,later⟩ | ⟨here,rfl⟩ | ⟨here,rfl⟩
    · obtain ⟨s,rest,rfl,last⟩ := Talk.askLeaves.mp first
      split at last
      · simp at last
      · rename_i sound
        split at last
        · rename_i done
          obtain ⟨rfl,-⟩ := last
          simp only [Bool.or_eq_true,not_or,Bool.not_eq_true] at sound
          exact .image ⟨done,sound.1,sound.2⟩ (awaitCut short later)
        · simp at last
    · obtain ⟨s,rest,rfl,last⟩ := Talk.askLeaves.mp here
      split at last
      · simp at last
      · split at last
        · simp at last
        · rename_i undone
          obtain ⟨rfl,-⟩ := last
          exact .refused (fun taken => undone taken.done) fun _ => Bool.eq_false_iff.mpr undone
    · obtain ⟨s,rest,rfl,last⟩ := Talk.askLeaves.mp here
      split at last
      · rename_i unsound
        obtain ⟨rfl,-⟩ := last
        refine .refused (fun taken => ?_) nofun
        simp [taken.trapped,taken.overrun] at unsound
      · split at last <;> simp at last

def settle (fuel : Nat) (rv : ResponseCmd × RawImage.ResponseValue) : Flash Nat :=
  if rv.2 = .nak ∧ rv.1.maxPayloadSizeToTargetInBytes ≠ 0 then
    (serve fuel (.ask (.configure (cfgCmd rv.1.maxPayloadSizeToTargetInBytes)) none)).bind fun _ =>
      .pure rv.1.maxPayloadSizeToTargetInBytes.toNat
  else if rv.2 = .ack then .pure defaultPayload.toNat
  else .exit

theorem cfgSettles (fuel : Nat) :
    fhSendCfgCmd fuel = (fhSendCmd (.configure (cfgCmd defaultPayload))).bind fun _ => replied fuel (settle fuel) := by
  have rest := funext fun rv => show settle fuel rv = _ by rw [settle,serve,Talk.bindAssoc]
  rw [replied,rest]
  rfl

theorem cfgWent {payload : Nat} (ran : (fhSendCfgCmd fuel).Leaves es (.went payload)) : Configured payload es := by
  rw [cfgSettles] at ran
  obtain ⟨_,x,y,rfl,first,later⟩ := Talk.bindWent.mp ran
  have offered := (sendLeaves.mp first).1
  rcases repliedCut later with ⟨r,v,x,y,rfl,answered,value,last⟩ | ⟨short,-⟩
  · unfold settle at last
    split at last
    · rename_i named
      obtain ⟨rfl,given⟩ := named
      obtain ⟨_,z,w,rfl,served,same⟩ := Talk.bindWent.mp last
      simp only [Talk.pureLeaves,Outcome.went.injEq] at same
      obtain ⟨rfl,rfl⟩ := same
      rw [List.append_nil]
      exact .negotiated offered answered value given (serveWent served)
    · split at last
      · rename_i good
        simp only [Talk.pureLeaves,Outcome.went.injEq] at last
        obtain ⟨rfl,rfl⟩ := last
        obtain rfl : v = .ack := good
        rw [List.append_nil]
        exact .accepted offered answered value
      · simp at last
  · exact absurd rfl (short _)

theorem cfgEnough {payload : Nat} (done : Configured payload es) (enough : es.length < fuel) :
    (fhSendCfgCmd fuel).Leaves es (.went payload) := by
  rw [cfgSettles]
  cases done with
  | @accepted x y r offered answered value =>
    rw [List.length_append] at enough
    refine Talk.bindWent.mpr ⟨(),_,_,rfl,sendLeaves.mpr ⟨offered,rfl⟩,?_⟩
    rw [← List.append_nil y]
    exact repliedEnough answered value (by omega) ⟨rfl,rfl⟩
  | @negotiated x y z r offered answered value given served =>
    simp only [List.length_append] at enough
    refine Talk.bindWent.mpr ⟨(),_,_,rfl,sendLeaves.mpr ⟨offered,rfl⟩,repliedEnough answered value (by omega) ?_⟩
    rw [settle,if_pos ⟨rfl,given⟩]
    exact Talk.bindWent.mpr ⟨(),z,[],(List.append_nil z).symm,serveEnough served (by omega),rfl,rfl⟩

theorem cfgCut {o : Outcome Nat} (short : ∀ n, o ≠ .went n) (ran : (fhSendCfgCmd fuel).Leaves es o) :
    (o = .left → Unconfigured .left es) ∧ (o = .lost → Unconfigured .lost es) := by
  rw [cfgSettles] at ran
  have either : ∀ o' : Outcome Unit, o' ≠ .went () → (o = .left ↔ o' = .left) → Unconfigured o' es := by
    intro o' short' same
    rcases Talk.bindLeaves.mp ran with ⟨_,x,y,rfl,first,later⟩ | ⟨here,-⟩ | ⟨here,-⟩
    · have offered := (sendLeaves.mp first).1
      rcases repliedCut later with ⟨r,v,x,y,rfl,answered,value,last⟩ | ⟨-,logs,rest,rfl,all,few,denies⟩
      · unfold settle at last
        split at last
        · rename_i named
          obtain ⟨rfl,given⟩ := named
          refine .second offered answered value given ?_
          rcases Talk.bindLeaves.mp last with ⟨_,z,w,rfl,served,more⟩ | ⟨here,rfl⟩ | ⟨here,rfl⟩
          · exact absurd more.2 (short _)
          · obtain rfl : o' = .left := same.mp rfl
            exact serveCut nofun here
          · cases o' with
            | went _ => exact absurd rfl short'
            | left => cases same.mpr rfl
            | lost => exact serveCut nofun here
        · rename_i unnamed
          split at last
          · exact absurd last.2 (short _)
          · rename_i bad
            obtain ⟨rfl,rfl⟩ := last
            rw [List.append_nil]
            exact .first offered (denied answered fun reply out => .inr ⟨r,v,out,value,bad,unnamed⟩)
      · exact .first offered ⟨logs,rest,rfl,all,few,fun out => (denies (same.mpr out)).imp fun _ both => ⟨both.1,.inl both.2⟩⟩
    · cases (sendLeaves.mp here).2
    · cases (sendLeaves.mp here).2
  refine ⟨?_,?_⟩
  · rintro rfl
    exact either .left nofun ⟨fun _ => rfl,fun _ => rfl⟩
  · rintro rfl
    exact either .lost nofun ⟨nofun,nofun⟩

end Parts

section Preparation
variable {dir : Bytes} {es : List Step}

theorem fixupsWent {cmds fixed : List Cmd} : (fixups dir cmds).Leaves es (.went fixed) ↔ Fixed dir cmds fixed es := by
  induction cmds generalizing fixed es with
  | nil =>
    simp only [fixups,Talk.pureLeaves,Outcome.went.injEq]
    constructor
    · rintro ⟨rfl,rfl⟩
      exact .nil
    · rintro ⟨⟩
      exact ⟨rfl,rfl⟩
  | cons cmd cmds ih =>
    simp only [fixups,Talk.bindWent,ih,Talk.pureLeaves,Outcome.went.injEq]
    have others : (∀ c, cmd ≠ .program c) → ∀ x first, (fhFixupProgramCmd dir cmd).Leaves x (.went first) ↔ x = [] ∧
        cmd = first := by
      intro other x first
      cases cmd with
      | program c => exact absurd rfl (other c)
      | vendor _ | erase _ | response _ | log => simp [fhFixupProgramCmd,eq_comm]
    constructor
    · rintro ⟨first,x,y,rfl,here,rest,z,w,rfl,later,rfl,rfl⟩
      rw [List.append_nil]
      by_cases kind : ∃ c, cmd = .program c
      · obtain ⟨c,rfl⟩ := kind
        unfold fhFixupProgramCmd at here
        cases name : c.filename with
        | none => simp [name] at here
        | some filename =>
          simp only [name,Talk.askLeaves] at here
          obtain ⟨file,z',rfl,here⟩ := here
          split at here
          · simp at here
          · simp at here
          · rename_i n positive counted
            simp only [Talk.pureLeaves,Outcome.went.injEq] at here
            obtain ⟨rfl,rfl⟩ := here
            obtain ⟨n,rfl⟩ := Nat.exists_eq_succ_of_ne_zero fun zero => positive zero
            cases file with
            | none => cases counted
            | some content =>
              have done := Fixed.program name counted later
              rw [name] at done
              exact done
      · obtain ⟨rfl,rfl⟩ := (others (fun c same => kind ⟨c,same⟩) x first).mp here
        exact .other (fun c same => kind ⟨c,same⟩) later
    · intro done
      cases done with
      | @program c filename file n _ fixed es name counted later =>
        refine ⟨_,[_],es,rfl,?_,fixed,es,[],(List.append_nil es).symm,later,rfl,rfl⟩
        obtain ⟨_,_,_,_,_,_,_,_⟩ := c
        cases name
        refine ⟨some file,[],rfl,?_⟩
        simp only [Option.elim_some,counted]
        exact ⟨rfl,rfl⟩
      | other kind later => exact ⟨cmd,[],_,rfl,(others kind [] cmd).mpr ⟨rfl,rfl⟩,_,_,[],(List.append_nil _).symm,later,rfl,rfl⟩

def prepare (dir : Bytes) (fuel : Nat) : Flash (List Cmd) :=
  allocate.bind fun _ =>
  (qfileFindXmlfile dir).bind fun name =>
  (readScript dir name).bind fun table =>
  (fixups dir table).bind fun cmds =>
  fhRecvCmd.bind fun _ =>
  (drain fuel).bind fun _ => .pure cmds

theorem allocateLeaves {o : Outcome Unit} :
    allocate.Leaves es o ↔ (es = [⟨.malloc,true⟩] ∧ o = .went ()) ∨ es = [⟨.malloc,false⟩] ∧ o = .left := by
  simp only [allocate,Talk.askLeaves]
  constructor
  · rintro ⟨allocated,_,rfl,last⟩
    cases allocated with
    | true =>
      obtain ⟨rfl,rfl⟩ := last
      exact .inl ⟨rfl,rfl⟩
    | false =>
      obtain ⟨rfl,rfl⟩ := last
      exact .inr ⟨rfl,rfl⟩
  · rintro (⟨rfl,rfl⟩ | ⟨rfl,rfl⟩)
    · exact ⟨true,[],rfl,rfl,rfl⟩
    · exact ⟨false,[],rfl,rfl,rfl⟩

theorem allocateWent {u : Unit} : allocate.Leaves es (.went u) ↔ es = [⟨.malloc,true⟩] := by
  simp [allocateLeaves]

theorem foundWent {name : Bytes} : (qfileFindXmlfile dir).Leaves es (.went name) ↔
    ∃ names : List Bytes, es = [⟨.list dir,some names⟩] ∧ names.find? scriptPrefix.isPrefixOf = some name := by
  simp only [qfileFindXmlfile,Talk.askLeaves]
  constructor
  · rintro ⟨names,rest,rfl,last⟩
    cases names with
    | none => simp at last
    | some names =>
      simp only [Option.getD_some] at last
      split at last
      · simp at last
      · rename_i found
        obtain ⟨rfl,same⟩ := last
        cases same
        exact ⟨names,rfl,found⟩
  · rintro ⟨names,rfl,found⟩
    exact ⟨some names,[],rfl,by simp [found]⟩

theorem readWent {name : Bytes} {cmds : List Cmd} : (readScript dir name).Leaves es (.went cmds) ↔
    ∃ (file : Bytes) (table : FlashScript.Table), es = [⟨.look (joined dir name),some file⟩] ∧
      (FlashScript.fhParseXmlFile file).outcome = .went table ∧ table ≠ [] ∧ cmds = table.map Prod.snd := by
  simp only [readScript,Talk.askLeaves]
  constructor
  · rintro ⟨content,rest,rfl,last⟩
    cases content with
    | none => simp at last
    | some file =>
      simp only at last
      split at last
      · rename_i table parsed
        split at last
        · simp at last
        · rename_i some
          obtain ⟨rfl,same⟩ := last
          cases same
          exact ⟨file,table,rfl,parsed,some,rfl⟩
      · simp at last
      · simp at last
  · rintro ⟨file,table,rfl,parsed,given,rfl⟩
    exact ⟨some file,[],rfl,by simp [parsed,given]⟩

theorem prepareWent {fuel : Nat} {cmds : List Cmd} (ran : (prepare dir fuel).Leaves es (.went cmds)) : Prepared dir cmds es := by
  simp only [prepare,Talk.bindWent,allocateWent,foundWent,readWent,fixupsWent,recvLeaves] at ran
  obtain ⟨_,_,_,rfl,rfl,name,_,_,rfl,⟨names,rfl,found⟩,_,_,_,rfl,⟨file,table,rfl,parsed,given,rfl⟩,cmds',looks,_,rfl,fixed,cmd,_,_,rfl,
    ⟨first,rfl,out⟩,_,w,_,rfl,quiet,rfl,same⟩ := ran
  cases same
  rw [List.append_nil]
  exact .intro found parsed given fixed out.symm (drainDrained (Talk.loopTurns quiet))

theorem prepareEnough {fuel : Nat} {cmds : List Cmd} (done : Prepared dir cmds es) (enough : es.length < fuel) :
    (prepare dir fuel).Leaves es (.went cmds) := by
  cases done with
  | @intro names name file table _ looks greeting first cmd found parsed some fixed out quiet =>
    simp only [List.length_cons,List.length_append] at enough
    simp only [prepare,Talk.bindWent,allocateWent,foundWent,readWent,fixupsWent,recvLeaves]
    exact ⟨(),[_],_,rfl,rfl,name,[_],_,rfl,⟨names,rfl,found⟩,_,[_],_,rfl,⟨file,table,rfl,parsed,some,rfl⟩,cmds,looks,_,rfl,fixed,
      cmd,[_],greeting,rfl,⟨first,rfl,out.symm⟩,(),greeting,[],(List.append_nil greeting).symm,drainEnough quiet (by omega),rfl,rfl⟩

theorem recvOnly : fhRecvCmd.Only fun q => ¬Sends q := by
  refine ⟨id,fun reply => ?_⟩
  dsimp only
  split <;> trivial

theorem drainOnly (fuel : Nat) : (drain fuel).Only fun q => ¬Sends q := by
  refine Talk.onlyLoop (fun _ => Talk.onlyBind recvOnly fun cmd => ?_) fuel ()
  cases cmd <;> trivial

theorem waitOnly (fuel : Nat) : (fhWaitResponseCmd fuel).Only fun q => ¬Sends q := by
  refine Talk.onlyLoop (fun _ => Talk.onlyBind recvOnly fun cmd => ?_) fuel ()
  cases cmd <;> trivial

theorem fixupOnly (cmd : Cmd) : (fhFixupProgramCmd dir cmd).Only fun q => ¬Sends q := by
  cases cmd with
  | program c =>
    rw [fhFixupProgramCmd]
    split
    · trivial
    · refine ⟨id,fun file => ?_⟩
      dsimp only
      split <;> trivial
  | vendor _ | erase _ | response _ | log => trivial

theorem prepareOnly (fuel : Nat) : (prepare dir fuel).Only fun q => ¬Sends q := by
  have fixed : ∀ cmds, (fixups dir cmds).Only fun q => ¬Sends q := by
    intro cmds
    induction cmds with
    | nil => trivial
    | cons cmd cmds ih => exact Talk.onlyBind (fixupOnly cmd) fun _ => Talk.onlyBind ih fun _ => trivial
  have memory : allocate.Only fun q => ¬Sends q := ⟨id,fun allocated => by cases allocated <;> trivial⟩
  refine Talk.onlyBind memory fun _ => Talk.onlyBind ⟨id,fun names => ?_⟩ fun name =>
    Talk.onlyBind ⟨id,fun file => ?_⟩ fun table =>
    Talk.onlyBind (fixed table) fun _ => Talk.onlyBind recvOnly fun _ => Talk.onlyBind (drainOnly fuel) fun _ => trivial
  · dsimp only
    split <;> trivial
  · dsimp only
    split
    · trivial
    · split
      · split <;> trivial
      · trivial
      · trivial

theorem EndsMissing.after {x y : List Step} (ends : EndsMissing dir y) : EndsMissing dir (x ++ y) := by
  obtain ⟨front,last,rfl,missing⟩ := ends
  exact ⟨x ++ front,last,(List.append_assoc _ _ _).symm,missing⟩

theorem endsOne {step : Step} (missing : Missing dir step) : EndsMissing dir [step] := ⟨[],step,rfl,missing⟩

theorem foundLeft (ran : (qfileFindXmlfile dir).Leaves es .left) : EndsMissing dir es := by
  obtain ⟨names,rest,rfl,last⟩ := ran
  dsimp only at last
  split at last
  · rename_i unfound
    obtain ⟨rfl,-⟩ := last
    exact endsOne (.script unfound)
  · cases last.2

theorem readLeft {name : Bytes} (ran : (readScript dir name).Leaves es .left) : EndsMissing dir es := by
  obtain ⟨content,rest,rfl,last⟩ := ran
  cases content with
  | none =>
    obtain ⟨rfl,-⟩ := last
    exact endsOne .content
  | some file =>
    dsimp only at last
    split at last
    · rename_i table parsed
      split at last
      · rename_i empty
        obtain ⟨rfl,-⟩ := last
        exact endsOne (.commands (empty ▸ parsed))
      · cases last.2
    · cases last.2
    · cases last.2

theorem fixupLeft {cmd : Cmd} (ran : (fhFixupProgramCmd dir cmd).Leaves es .left) : EndsMissing dir es := by
  cases cmd with
  | program c =>
    rw [fhFixupProgramCmd] at ran
    split at ran
    · cases ran.2
    · obtain ⟨file,rest,rfl,last⟩ := ran
      dsimp only at last
      split at last
      · cases last.2
      · rename_i zero
        obtain ⟨rfl,-⟩ := last
        exact endsOne (.image zero)
      · cases last.2
  | vendor _ | erase _ | response _ | log => cases ran.2

theorem fixupsLeft {cmds : List Cmd} (ran : (fixups dir cmds).Leaves es .left) : EndsMissing dir es := by
  induction cmds generalizing es with
  | nil => cases ran.2
  | cons cmd cmds ih =>
    rcases Talk.bindLeaves.mp ran with ⟨_,x,y,rfl,-,later⟩ | ⟨here,-⟩ | ⟨-,same⟩
    · rcases Talk.bindLeaves.mp later with ⟨_,_,_,_,_,last⟩ | ⟨here,-⟩ | ⟨-,same⟩
      · cases last.2
      · exact (ih here).after
      · cases same
    · exact fixupLeft here
    · cases same

theorem drainStays {fuel : Nat} : ¬(drain fuel).Leaves es .left := by
  intro ran
  obtain ⟨_,_,_,_,_,last⟩ := Talk.loopCut (fun _ => by simp) ran
  rcases last with ⟨_,same⟩ | ⟨here,-⟩ | ⟨_,same⟩
  · cases same
  · obtain ⟨reply,-,out⟩ := drainLeaves.mp here
    cases same : answer reply with
    | went cmd => cases cmd <;> simp [drained,same] at out
    | left | lost => simp [drained,same] at out
  · cases same

theorem prepareLeft {fuel : Nat} (ran : (prepare dir fuel).Leaves es .left) : EndsMissing dir es := by
  rcases Talk.bindLeaves.mp ran with ⟨_,_,_,rfl,-,later⟩ | ⟨here,-⟩ | ⟨-,same⟩
  · refine EndsMissing.after ?_
    rcases Talk.bindLeaves.mp later with ⟨name,_,_,rfl,-,later⟩ | ⟨here,-⟩ | ⟨-,same⟩
    · refine EndsMissing.after ?_
      rcases Talk.bindLeaves.mp later with ⟨table,_,_,rfl,-,later⟩ | ⟨here,-⟩ | ⟨-,same⟩
      · refine EndsMissing.after ?_
        rcases Talk.bindLeaves.mp later with ⟨cmds,_,_,rfl,-,later⟩ | ⟨here,-⟩ | ⟨-,same⟩
        · rcases Talk.bindLeaves.mp later with ⟨_,_,_,rfl,-,later⟩ | ⟨here,-⟩ | ⟨-,same⟩
          · rcases Talk.bindLeaves.mp later with ⟨_,_,_,_,_,last⟩ | ⟨here,-⟩ | ⟨-,same⟩
            · cases last.2
            · exact absurd here drainStays
            · cases same
          · obtain ⟨reply,-,out⟩ := recvLeaves.mp here
            exact absurd out.symm (answerEnds reply)
          · cases same
        · exact fixupsLeft here
        · cases same
      · exact readLeft here
      · cases same
    · exact foundLeft here
    · cases same
  · obtain ⟨_,same⟩ | ⟨rfl,-⟩ := allocateLeaves.mp here
    · cases same
    · exact endsOne .memory
  · cases same

end Preparation

def finish (fuel : Nat) : Flash Unit :=
  (fhSendCmd .reset).bind fun _ => (fhWaitResponseCmd fuel).bind fun _ => drain fuel

theorem mainParts (dir : Bytes) (fuel : Nat) : firehoseMain dir fuel =
    (prepare dir fuel).bind fun cmds => (fhSendCfgCmd fuel).bind fun payload =>
      (Talk.each (serve fuel) (plan dir payload cmds)).bind fun _ => finish fuel := by
  simp only [← loopsServe,prepare,Talk.bindAssoc]
  rfl

section Session
variable {dir : Bytes} {es : List Step} {fuel : Nat}

theorem sessionWent (ran : (firehoseMain dir fuel).Leaves es (.went ())) : Complete dir es := by
  simp only [mainParts,finish,Talk.bindWent,sendLeaves] at ran
  obtain ⟨cmds,a,_,rfl,prepared,payload,b,_,rfl,configured,_,c,_,rfl,served,_,d,_,rfl,⟨reset,-⟩,cmd,e,f,rfl,answered,quiet⟩ := ran
  exact .intro (prepareWent prepared) (cfgWent configured) ((Talk.eachWent.mp served).mono fun _ _ _ => serveWent)
    reset (waitAnswered (Talk.loopTurns answered)) (drainDrained (Talk.loopTurns quiet))

theorem sessionEnough (complete : Complete dir es) (enough : es.length < fuel) :
    (firehoseMain dir fuel).Leaves es (.went ()) := by
  cases complete with
  | @intro cmds payload a b c d e f cmd prepared configured parts reset answered quiet =>
    simp only [List.length_append] at enough
    simp only [mainParts,finish,Talk.bindWent,sendLeaves]
    exact ⟨cmds,a,_,rfl,prepareEnough prepared (by omega),payload,b,_,rfl,cfgEnough configured (by omega),
      (),c,_,rfl,Talk.eachWent.mpr (parts.mono fun _ _ short done => serveEnough done (by omega)),
      (),d,_,rfl,⟨reset,trivial⟩,cmd,e,f,rfl,waitEnough answered (by omega),drainEnough quiet (by omega)⟩

theorem sessionCut {o : Outcome Unit} (short : o ≠ .went ()) (ran : (firehoseMain dir fuel).Leaves es o) : Cut dir o es := by
  rw [mainParts] at ran
  rcases Talk.bindLeaves.mp ran with ⟨cmds,a,_,rfl,prepared,later⟩ | ⟨here,rfl⟩ | ⟨here,rfl⟩
  · have prepared := prepareWent prepared
    rcases Talk.bindLeaves.mp later with ⟨payload,b,_,rfl,configured,later⟩ | ⟨here,rfl⟩ | ⟨here,rfl⟩
    · have configured := cfgWent configured
      have cutServing : ∀ {x}, (Talk.each (serve fuel) (plan dir payload cmds)).Leaves x o → Cut dir o (a ++ (b ++ x)) := by
        intro x here
        exact .serving prepared configured (((Talk.eachCut short).mp here).mono (fun _ _ => serveWent) fun _ _ => serveCut short)
      rcases Talk.bindLeaves.mp later with ⟨_,c,x,rfl,served,last⟩ | ⟨here,rfl⟩ | ⟨here,rfl⟩
      · have served := (Talk.eachWent.mp served).mono fun _ _ _ => serveWent
        rcases Talk.bindLeaves.mp last with ⟨_,d,e,rfl,reset,last⟩ | ⟨here,-⟩ | ⟨here,-⟩
        · have silent := Talk.onlyAsked (Talk.onlyBind (waitOnly fuel) fun _ => drainOnly fuel) last
          refine .resetting prepared configured served (sendLeaves.mp reset).1 ⟨silent,?_⟩
          rintro rfl
          rcases Talk.bindLeaves.mp last with ⟨_,_,_,rfl,-,here⟩ | ⟨here,-⟩ | ⟨-,same⟩
          · exact absurd here drainStays
          · simpa [Unanswered] using waitCut (o := .left) (fun _ => by simp) here
          · cases same
        · cases (sendLeaves.mp here).2
        · cases (sendLeaves.mp here).2
      · exact cutServing here
      · exact cutServing here
    · exact .configuring prepared ((cfgCut (o := .left) nofun here).1 rfl)
    · exact .configuring prepared ((cfgCut (o := .lost) nofun here).2 rfl)
  · exact .preparing ⟨Talk.onlyAsked (prepareOnly fuel) here,fun _ => prepareLeft here⟩
  · exact .preparing ⟨Talk.onlyAsked (prepareOnly fuel) here,by simp⟩

end Session

/- The sessions that end with a return of 0 are the complete ones: each command and image of
the plan goes out after the answer to the one before it. Every other run is cut off inside
one of these steps, an error return by an answer that denies or by something missing. -/
theorem flashSession (dir : Bytes) (es : List Step) :
    ((∃ fuel, (firehoseMain dir fuel).Leaves es (.went ())) ↔ Complete dir es) ∧
      ∀ fuel o, o ≠ .went () → (firehoseMain dir fuel).Leaves es o → Cut dir o es := by
  refine ⟨⟨?_,fun complete => ⟨es.length+1,sessionEnough complete (Nat.lt_succ_self _)⟩⟩,fun _ _ => sessionCut⟩
  rintro ⟨fuel,ran⟩
  exact sessionWent ran

def receivedAt : Step → Bytes
  | ⟨.write message,ret⟩ => message.take (Int.toNat ret)
  | ⟨.image _ sectorSize payload,s⟩ => (sentOf sectorSize payload s).device
  | ⟨.malloc,_⟩ | ⟨.list _,_⟩ | ⟨.look _,_⟩ | ⟨.hear,_⟩ => []
def received (es : List Step) : Bytes := es.flatMap receivedAt

def openedAt : Step → Option Bytes
  | ⟨.image _ _ _,s⟩ => Sending.file s
  | ⟨.malloc,_⟩ | ⟨.list _,_⟩ | ⟨.look _,_⟩ | ⟨.hear,_⟩ | ⟨.write _,_⟩ => none
def opened (es : List Step) : List Bytes := es.filterMap openedAt

def messageOf (request : Request) : Bytes := (Commands.fhSendCmd request).getD []

def contents : List Item → List Bytes → Bytes
  | [],_ => []
  | .ask request _::items,files => messageOf request ++ contents items files
  | .image _ sectorSize _::items,files => padded sectorSize (files.head?.getD []) ++ contents items files.tail

def WholeAt : Step → Prop
  | ⟨.write message,ret⟩ => message.length ≤ Int.toNat ret
  | ⟨.malloc,_⟩ | ⟨.list _,_⟩ | ⟨.look _,_⟩ | ⟨.hear,_⟩ | ⟨.image _ _ _,_⟩ => True
def Whole (es : List Step) : Prop := ∀ step ∈ es, WholeAt step

section Delivery
variable {es : List Step}

theorem imageWhole {sectorSize payload : Nat} {s : Sending} (positive : 0 < sectorSize) (given : 0 < payload)
    (taken : Taken sectorSize payload s) :
    ∃ file, s.file = some file ∧ (sentOf sectorSize payload s).device = padded sectorSize file := by
  obtain ⟨done,-,overrun⟩ := taken
  by_cases ready : s.allocated = true ∧ s.file.isSome = true
  · obtain ⟨file,same⟩ := Option.isSome_iff_exists.mp ready.2
    simp only [sentOf,ready.1,same,Option.isSome_some,Option.getD_some] at done overrun ⊢
    refine ⟨file,rfl,?_⟩
    have fits : payload % sectorSize = 0 ∨ file.length+padding sectorSize file.length ≤ payload := by
      by_cases content : file = []
      · exact .inr (by simp [content,padding])
      · refine Decidable.byContradiction fun outside => ?_
        rw [not_or,Nat.not_le] at outside
        rw [RawImage.overruns positive given content outside.1 outside.2] at overrun
        cases overrun
    exact (RawImage.imageSends positive given fits s.writes).device done
  · rw [sentOf,RawImage.closedSends ready] at done
    cases done

theorem receivedAppend (a b : List Step) : received (a ++ b) = received a ++ received b := List.flatMap_append
theorem openedAppend (a b : List Step) : opened (a ++ b) = opened a ++ opened b := List.filterMap_append

theorem silentReceived (silent : Silent es) : received es = [] ∧ opened es = [] := by
  induction es with
  | nil => exact ⟨rfl,rfl⟩
  | cons step es ih =>
    obtain ⟨here,later⟩ := List.forall_mem_cons.mp silent
    obtain ⟨nothing,unopened⟩ := ih later
    obtain ⟨q,a⟩ := step
    cases q with
    | malloc | list _ | look _ | hear => exact ⟨nothing,unopened⟩
    | write _ | image _ _ _ => exact absurd trivial here

theorem hearsSilent (replies : List Bytes) : Silent (hears replies) := by
  intro step inside
  obtain ⟨reply,-,rfl⟩ := List.mem_map.mp inside
  exact id

theorem answeredSilent {cmd : Cmd} (answered : Answered cmd es) : Silent es := by
  obtain ⟨logs,last,rfl,-⟩ := answered
  exact hearsSilent _

theorem offeredReceived {request : Request} (offered : Offered request es) (whole : Whole es) :
    received es = messageOf request ∧ opened es = [] := by
  cases offered with
  | @sent message ret same =>
    have all : message.length ≤ ret.toNat := whole ⟨.write message,ret⟩ List.mem_cons_self
    exact ⟨by simp [received,receivedAt,messageOf,same,List.take_of_length_le all],rfl⟩
  | unsent same => exact ⟨by simp [received,messageOf,same],rfl⟩

theorem wholeLeft {a b : List Step} (whole : Whole (a ++ b)) : Whole a :=
  fun step inside => whole step (List.mem_append_left b inside)
theorem wholeRight {a b : List Step} (whole : Whole (a ++ b)) : Whole b :=
  fun step inside => whole step (List.mem_append_right a inside)

theorem askReceived {request : Request} {raw : Option Bool} (done : Performed (.ask request raw) es) (whole : Whole es) :
    received es = messageOf request ∧ opened es = [] := by
  cases done with
  | ask offered answered _ =>
    obtain ⟨got,unopened⟩ := offeredReceived offered (wholeLeft whole)
    obtain ⟨nothing,closed⟩ := silentReceived (answeredSilent answered)
    rw [receivedAppend,openedAppend,got,unopened,nothing,closed]
    exact ⟨List.append_nil _,rfl⟩

theorem partsReceived {items : List Item} (parts : Parts Performed items es) (whole : Whole es)
    (sound : ∀ path sectorSize payload, .image path sectorSize payload ∈ items → 0 < sectorSize ∧ 0 < payload)
    (more : List Bytes) :
    received es = contents items (opened es ++ more) := by
  induction parts generalizing more with
  | nil => rfl
  | @cons item items x y first _ ih =>
    have rest := ih (wholeRight whole) (fun path size payload inside => sound path size payload (List.mem_cons_of_mem _ inside)) more
    rw [receivedAppend,openedAppend,rest]
    cases item with
    | ask request raw =>
      obtain ⟨got,unopened⟩ := askReceived first (wholeLeft whole)
      rw [got,unopened]
      rfl
    | image path sectorSize payload =>
      obtain ⟨positive,given⟩ := sound path sectorSize payload List.mem_cons_self
      cases first with
      | @image _ _ _ s z _ taken answered _ =>
        obtain ⟨file,same,device⟩ := imageWhole positive given taken
        obtain ⟨nothing,closed⟩ := silentReceived (answeredSilent answered)
        have got : received (⟨.image path sectorSize payload,s⟩ :: z) = padded sectorSize file ++ received z :=
          congrArg (· ++ received z) device
        have opens : opened (⟨.image path sectorSize payload,s⟩ :: z) = file :: opened z := List.filterMap_cons_some same
        rw [got,opens,nothing,closed,List.append_nil]
        rfl

def numbers (r : ResponseCmd) : RawImage.Response := ⟨r.value,r.maxPayloadSizeToTargetInBytes.toNat⟩

theorem configuredSettles {payload : Nat} (configured : Configured payload es) :
    ∃ first second, RawImage.fhSendCfgCmd (some (numbers first)) (Option.map numbers second) = .payload payload := by
  cases configured with
  | @accepted x y r _ _ value => exact ⟨r,none,by simp [RawImage.fhSendCfgCmd,numbers,value,RawImage.acknowledged]; rfl⟩
  | @negotiated x y z r _ _ value given served =>
    have small : r.maxPayloadSizeToTargetInBytes.toNat % 2 ^ 32 = r.maxPayloadSizeToTargetInBytes.toNat :=
      Nat.mod_eq_of_lt r.maxPayloadSizeToTargetInBytes.toNat_lt
    have some : r.maxPayloadSizeToTargetInBytes.toNat ≠ 0 := fun zero => given (UInt32.toNat_inj.mp zero)
    cases served with
    | ask _ _ good =>
      obtain ⟨r',-,value',-⟩ := good
      exact ⟨r,.some r',by simp only [RawImage.fhSendCfgCmd,numbers,value,small,RawImage.acknowledged,Option.map_some,value',some,
        ne_eq,not_false_eq_true,and_self,if_true]⟩

theorem configuredReceived {payload : Nat} (configured : Configured payload es) (whole : Whole es) : opened es = [] ∧
    ∃ offers, (offers = [defaultPayload] ∨ offers = [defaultPayload,UInt32.ofNat payload]) ∧
      received es = offers.flatMap fun n => messageOf (.configure (cfgCmd n)) := by
  cases configured with
  | accepted offered answered _ =>
    obtain ⟨got,unopened⟩ := offeredReceived offered (wholeLeft whole)
    obtain ⟨nothing,closed⟩ := silentReceived (answeredSilent answered)
    exact ⟨by rw [openedAppend,unopened,closed]; rfl,_,.inl rfl,by rw [receivedAppend,got,nothing]; rfl⟩
  | negotiated offered answered _ _ served =>
    obtain ⟨got,unopened⟩ := offeredReceived offered (wholeLeft whole)
    obtain ⟨nothing,closed⟩ := silentReceived (answeredSilent answered)
    obtain ⟨again,unopened'⟩ := askReceived served (wholeRight (wholeRight whole))
    refine ⟨?_,_,.inr rfl,?_⟩
    · rw [openedAppend,openedAppend,unopened,closed,unopened']
      rfl
    · rw [receivedAppend,receivedAppend,got,nothing,again,UInt32.ofNat_toNat]
      simp

def Announced (dir : Bytes) (es : List Step) (c : ProgramCmd) : Prop :=
  0 < c.sectorSizeInBytes.toNat ∧ ∃ file : Bytes, ⟨.look (imageOf dir c),some file⟩ ∈ es ∧
    (RawImage.sectorsOf c.sectorSizeInBytes.toNat file.length < 2 ^ 32 →
      c.numPartitionSectors.toNat*c.sectorSizeInBytes.toNat = (padded c.sectorSizeInBytes.toNat file).length)

theorem fixedAnnounced {dir : Bytes} {cmds fixed : List Cmd} (done : Fixed dir cmds fixed es) :
    Silent es ∧ ∀ c ∈ programs fixed, Announced dir es c := by
  induction done with
  | nil => exact ⟨nofun,nofun⟩
  | @program c filename file n cmds fixed es name counted _ ih =>
    obtain ⟨silent,later⟩ := ih
    refine ⟨List.forall_mem_cons.mpr ⟨id,silent⟩,List.forall_mem_cons.mpr ⟨?_,fun c inside => ?_⟩⟩
    · have some : 0 < file.length := Nat.pos_of_ne_zero fun zero => by simp [RawImage.fhFixupProgramCmd,zero] at counted
      have positive : 0 < c.sectorSizeInBytes.toNat := by
        refine Nat.pos_of_ne_zero fun zero => ?_
        simp [RawImage.fhFixupProgramCmd,zero,Nat.ne_of_gt some] at counted
      refine ⟨positive,file,?_,fun few => ?_⟩
      · have path : imageOf dir c = fullPath dir filename := by rw [imageOf,name,Option.getD_some]
        show (⟨.look (imageOf dir c),Option.some file⟩ : Step) ∈ _
        rw [path]
        exact List.mem_cons_self
      · rw [RawImage.fixup positive some,Nat.mod_eq_of_lt few] at counted
        rw [RawImage.paddedLength,← RawImage.sectorsWhole positive]
        have same : n+1 = RawImage.sectorsOf c.sectorSizeInBytes.toNat file.length := (Option.some.inj counted).symm
        rw [← same] at few ⊢
        simp only [UInt32.toNat_ofNat_of_lt' few]
    · obtain ⟨positive,file,inside,same⟩ := later c inside
      exact ⟨positive,file,List.mem_cons_of_mem _ inside,same⟩
  | @other cmd cmds fixed es kind _ ih =>
    have same : programs (cmd :: fixed) = programs fixed := by
      cases cmd with
      | program c => exact absurd rfl (kind c)
      | vendor _ | erase _ | response _ | log => rfl
    rw [same]
    exact ih

theorem preparedAnnounced {dir : Bytes} {cmds : List Cmd} (prepared : Prepared dir cmds es) :
    Silent es ∧ ∀ c ∈ programs cmds, Announced dir es c := by
  cases prepared with
  | @intro names name file table _ looks greeting first cmd _ _ _ fixed _ quiet =>
    obtain ⟨silent,all⟩ := fixedAnnounced fixed
    obtain ⟨replies,last,rfl,-,-⟩ := quiet
    refine ⟨?_,fun c inside => ?_⟩
    · refine List.forall_mem_cons.mpr ⟨id,List.forall_mem_cons.mpr ⟨id,List.forall_mem_cons.mpr ⟨id,fun step inside => ?_⟩⟩⟩
      rcases List.mem_append.mp inside with inside | inside
      · exact silent step inside
      · exact hearsSilent (first :: (replies ++ [last])) step inside
    · obtain ⟨positive,content,inside,same⟩ := all c inside
      exact ⟨positive,content,by simp [inside],same⟩

theorem planImages {dir : Bytes} {payload size payload' : Nat} {path : Bytes} {cmds : List Cmd}
    (inside : .image path size payload' ∈ plan dir payload cmds) :
    payload' = payload ∧ ∃ c ∈ programs cmds, size = c.sectorSizeInBytes.toNat := by
  simp only [plan,programItems,List.mem_append,List.mem_map,List.mem_flatMap,List.mem_cons,reduceCtorEq,and_false,exists_false,
    false_or,Item.image.injEq,List.not_mem_nil,or_false] at inside
  obtain ⟨c,listed,-,rfl,rfl⟩ := inside
  exact ⟨rfl,c,listed,rfl⟩

theorem partsOpened {items : List Item} (parts : Parts Performed items es) (whole : Whole es)
    (sound : ∀ path sectorSize payload, .image path sectorSize payload ∈ items → 0 < sectorSize ∧ 0 < payload) :
    (opened es).length = items.countP fun item => item matches .image _ _ _ := by
  induction parts with
  | nil => rfl
  | @cons item items x y first _ ih =>
    have rest := ih (wholeRight whole) fun path size payload inside => sound path size payload (List.mem_cons_of_mem _ inside)
    rw [openedAppend,List.length_append,rest]
    cases item with
    | ask request raw =>
      rw [(askReceived first (wholeLeft whole)).2,List.countP_cons_of_neg (by simp)]
      exact Nat.zero_add _
    | image path sectorSize payload =>
      obtain ⟨positive,given⟩ := sound path sectorSize payload List.mem_cons_self
      cases first with
      | @image _ _ _ s z _ taken answered _ =>
        obtain ⟨file,same,-⟩ := imageWhole positive given taken
        have opens : opened (⟨.image path sectorSize payload,s⟩ :: z) = file :: opened z := List.filterMap_cons_some same
        rw [opens,(silentReceived (answeredSilent answered)).2,List.countP_cons_of_pos (by simp)]
        exact Nat.add_comm _ _

theorem planOpened (dir : Bytes) (payload : Nat) (cmds : List Cmd) :
    ((plan dir payload cmds).countP fun item => item matches .image _ _ _) = (programs cmds).length := by
  have asks : ∀ l : List Cmd, (l.map fun cmd => Item.ask (.command cmd) none).countP (fun item => item matches .image _ _ _) = 0 := by
    intro l
    rw [List.countP_eq_zero]
    simp
  have images : ∀ l : List ProgramCmd,
      (l.flatMap (programItems dir payload)).countP (fun item => item matches .image _ _ _) = l.length := by
    intro l
    induction l with
    | nil => rfl
    | cons c l ih => simp [programItems,ih]
  rw [plan,List.countP_append,List.countP_append,asks,asks,images]
  omega

def Delivered (dir : Bytes) (es : List Step) : Prop :=
  ∃ cmds payload offers before after, es = before ++ after ∧ Prepared dir cmds before ∧
    (offers = [defaultPayload] ∨ offers = [defaultPayload,UInt32.ofNat payload]) ∧
    received es = (offers.flatMap fun n => messageOf (.configure (cfgCmd n))) ++
      (contents (plan dir payload cmds) (opened es) ++ messageOf .reset) ∧
    (opened es).length = (programs cmds).length ∧ ∀ c ∈ programs cmds, Announced dir before c

theorem flashDelivered {dir : Bytes} (complete : Complete dir es) (whole : Whole es) : Delivered dir es := by
  cases complete with
  | @intro cmds payload a b c d e f cmd prepared configured parts reset answered quiet =>
    obtain ⟨silent,announced⟩ := preparedAnnounced prepared
    have after := wholeRight whole
    obtain ⟨_,_,settles⟩ := configuredSettles configured
    have given := (RawImage.configuredPayload settles).1
    obtain ⟨unopened,offers,which,told⟩ := configuredReceived configured (wholeLeft after)
    have served := wholeLeft (wholeRight after)
    have sound : ∀ path size payload', .image path size payload' ∈ plan dir payload cmds → 0 < size ∧ 0 < payload' := by
      intro path size payload' inside
      obtain ⟨rfl,c,listed,rfl⟩ := planImages inside
      exact ⟨(announced c listed).1,given⟩
    have images := partsReceived parts served sound []
    obtain ⟨reset,closed⟩ := offeredReceived reset (wholeLeft (wholeRight (wholeRight after)))
    obtain ⟨none₁,closed₁⟩ := silentReceived silent
    obtain ⟨none₂,closed₂⟩ := silentReceived (answeredSilent answered)
    obtain ⟨replies,last,rfl,-,-⟩ := quiet
    obtain ⟨none₃,closed₃⟩ := silentReceived (hearsSilent (replies ++ [last]))
    have opens : opened (a ++ (b ++ (c ++ (d ++ (e ++ hears (replies ++ [last])))))) = opened c := by
      simp [openedAppend,unopened,closed,closed₁,closed₂,closed₃]
    refine ⟨cmds,payload,offers,a,_,rfl,prepared,which,?_,?_,announced⟩
    · rw [opens]
      simp [receivedAppend,told,images,reset,none₁,none₂,none₃]
    · rw [opens,partsOpened parts served sound,planOpened]

end Delivery

namespace Sample
open Replies (Document render)

def ack : Document :=
  {Replies.acknowledgement with attributes := text "value=\"ACK\" ", attributesText := by decide}

def script : Bytes := text "<program filename=\"a\" SECTOR_SIZE_IN_BYTES=\"4\" />\n"
def image : Bytes := [1,2,3,4,5]
def programmed : ProgramCmd := ⟨some (text "a"),0,4,[],0,2,0,0⟩
def sending : Sending := ⟨true,some image,fun _ n => n⟩

def told (request : Request) (reply : Document) : List Step :=
  [⟨.write (messageOf request),((messageOf request).length : Int)⟩,⟨.hear,render [reply]⟩]

def prepared : List Step :=
  [⟨.malloc,true⟩,⟨.list [],some [text "rawprogram.xml"]⟩,⟨.look (joined [] (text "rawprogram.xml")),some script⟩,
    ⟨.look (imageOf [] programmed),some image⟩,⟨.hear,[]⟩,⟨.hear,[]⟩]
def session : List Step :=
  prepared ++ (told (.configure (cfgCmd defaultPayload)) ack ++
    ((told (.command (.program programmed)) Replies.acknowledgement ++
      ([⟨.image (imageOf [] programmed) 4 8192,sending⟩,⟨.hear,render [ack]⟩] ++ [])) ++
    ([⟨.write (messageOf .reset),((messageOf .reset).length : Int)⟩] ++ ([⟨.hear,render [ack]⟩] ++ [⟨.hear,[]⟩]))))

theorem offered (request : Request) (given : (Commands.fhSendCmd request).isSome = true) :
    Offered request [⟨.write (messageOf request),((messageOf request).length : Int)⟩] := by
  obtain ⟨m,same⟩ := Option.isSome_iff_exists.mp given
  exact .sent _ (by rw [messageOf,same]; rfl)

theorem acknowledged : Answered (.response ⟨some .ack,false,0⟩) [⟨.hear,render [ack]⟩] :=
  ⟨[],render [ack],rfl,nofun,by decide +kernel,nofun⟩
theorem acknowledgedRaw : Answered (.response ⟨some .ack,true,0⟩) [⟨.hear,render [Replies.acknowledgement]⟩] :=
  ⟨[],render [Replies.acknowledgement],rfl,nofun,by decide +kernel,nofun⟩

theorem ready : Prepared [] [.program programmed] prepared :=
  @Prepared.intro [] [text "rawprogram.xml"] (text "rawprogram.xml") script [(0,.program {programmed with numPartitionSectors := 0})]
    [.program programmed] [⟨.look (imageOf [] programmed),some image⟩] [⟨.hear,[]⟩] [] none (by decide) (by decide +kernel)
    (List.cons_ne_nil _ _) (@Fixed.program [] {programmed with numPartitionSectors := 0} (text "a") image 1 [] [] [] rfl (by decide) .nil)
    rfl ⟨[],[],rfl,nofun,rfl⟩

theorem complete : Complete [] session :=
  @Complete.intro [] [.program programmed] 8192 prepared _ _ _ _ _ _ ready (.accepted (offered _ (by decide +kernel)) acknowledged rfl)
    (.cons (.ask (offered _ (by decide +kernel)) acknowledgedRaw ⟨_,rfl,rfl,by simp⟩)
      (.cons (.image ⟨by decide +kernel,by decide +kernel,by decide +kernel⟩ acknowledged ⟨_,rfl,rfl,by simp⟩) .nil))
    (offered .reset (by decide +kernel)) acknowledged ⟨[],[],rfl,nofun,rfl⟩

theorem flashSessionRuns : ∃ fuel, (firehoseMain [] fuel).Leaves session (.went ()) := (flashSession [] session).1.mpr complete

theorem whole : Whole session := by
  simp only [Whole,session,prepared,told,List.cons_append,List.nil_append,List.forall_mem_cons,WholeAt,Int.toNat_natCast,
    Nat.le_refl,
    List.not_mem_nil,IsEmpty.forall_iff,implies_true,and_self]

theorem flashDeliveredRuns : Delivered [] session := flashDelivered complete whole

end Sample

end MhiHost.FlashSession

import MhiHost.PowerDown
import MhiHost.WorkList

/-! The transition list as a list worked off by `st_worker`. `PowerDown` follows what the
items do to the controller; here every item is followed from `list_add_tail` to the worker,
with `schedule_work` a step of its own. An item for which no memory is found is not queued. -/
namespace MhiHost.TransitionQueue
open Handlers PowerDown WorkList
open Relation (ReflTransGen)

structure Board where
  worker : Worker
  owed : List Nat
  pending : Bool
  run : Run
  queued : List DevStTransition
  handled : List DevStTransition

namespace Board

def start (h : Host) : Board := ⟨.start h,[],false,.idle,[],[]⟩
def desk (b : Board) : Desk DevStTransition :=
  ⟨b.worker.host.transitionList,b.worker.head,b.owed,b.pending,b.run,b.queued,b.handled⟩

/- The worker goes on with other members than the list it shares with the producers. -/
def withHost (b : Board) (h : Host) : Board :=
  let items := h.transitionList.drop b.worker.host.transitionList.length
  {b with worker := b.worker.withHost h, owed := b.owed ++ added b.queued items, queued := b.queued ++ items}

end Board

/- `asked` is any other caller of `mhi_queue_state_transition`; an item in hand goes on as in
`PowerDown`, and the next one is taken when it is done. -/
inductive Step : Board → Board → Prop where
  | handler {b h} (ran : Handler b.worker.host h) : Step b (b.withHost h)
  | asked {b} (st : DevStTransition) : Step b (b.withHost (mhiQueueStateTransition b.worker.host st))
  | scheduled {b} (i : Nat) (owes : i ∈ b.owed) : Step b {b with owed := b.owed.erase i, pending := true}
  | begun {b} (pending : b.pending = true) (free : b.run = .idle) : Step b {b with pending := false, run := .begun}
  | spliced {b} (begun : b.run = .begun) : Step b {b with
      worker := {b.worker with host := {b.worker.host with transitionList := []}, head := b.worker.host.transitionList}
      run := .taken}
  | took {b} (st : DevStTransition) (rest : List DevStTransition) (reply : ItemReply) (taken : b.run = .taken)
      (first : b.worker.head = st :: rest) (free : b.worker.job = none) : Step b {b with
      worker := ⟨(beginItem b.worker.host st reply).1,rest,(beginItem b.worker.host st reply).2,b.worker.phase⟩
      handled := b.handled ++ [st]}
  | worked {b w} (ran : PowerDown.Step (fun _ _ => True) b.worker w) (busy : b.worker.job ≠ none) (moved : w.job ≠ b.worker.job) :
      Step b {b with worker := w}
  | ended {b} (taken : b.run = .taken) (spent : b.worker.head = []) (free : b.worker.job = none) : Step b {b with run := .idle}

theorem workedAside {s w : Worker} (ran : PowerDown.Step (fun _ _ => True) s w) (busy : s.job ≠ none) (moved : w.job ≠ s.job) :
    w.head = s.head ∧ w.host.transitionList = s.host.transitionList := by
  cases ran with
  | handler ran => exact absurd rfl moved
  | append st => exact absurd rfl moved
  | linkDown free => exact absurd rfl moved
  | powerDown free => exact absurd rfl moved
  | splice empty free => exact absurd free busy
  | take st rest reply first free may => exact absurd free busy
  | loaded passThru edl reply here => exact ⟨rfl,(fwLoadFrame s.host passThru edl reply).2⟩
  | mission inTime reply here waited => exact ⟨rfl,(missionFinishView s.host inTime reply).2.1⟩
  | stuck target prev cleared here failed => exact ⟨rfl,rfl⟩
  | cleared target prev cleared here passed => exact ⟨rfl,rfl⟩
  | destroy target d left script here ran => exact ⟨rfl,(destroyView ran).2.1⟩
  | disabled target reply here => exact ⟨rfl,(disableFinishFrame s.host target reply).2⟩
  | flush taken empty free => exact absurd rfl moved

theorem addedDesk {b : Board} {h : Host} {items : List DevStTransition}
    (list : h.transitionList = b.worker.host.transitionList ++ items) :
    (b.withHost h).desk =
      {b.desk with
        list := b.desk.list ++ items, owed := b.desk.owed ++ added b.desk.queued items, queued := b.desk.queued ++ items} := by
  simp [Board.withHost,Board.desk,Worker.withHost,list]

theorem stepDesk {b c : Board} (step : Step b c) : c.desk = b.desk ∨ WorkList.Step b.desk c.desk := by
  cases step with
  | handler ran =>
    obtain ⟨items,list⟩ := (handlerFrame ran).list
    rw [addedDesk list]
    exact .inr (.add items)
  | asked st =>
    rw [@addedDesk b _ [st] rfl]
    exact .inr (.add [st])
  | scheduled i owes => exact .inr (.schedule i owes)
  | begun pending free => exact .inr (.begin pending free)
  | spliced begun => exact .inr (.splice begun)
  | took st rest reply taken first free =>
    have same : (beginItem b.worker.host st reply).1.transitionList = b.worker.host.transitionList :=
      (beginView b.worker.host st reply).1
    have moved : WorkList.Step b.desk {b.desk with batch := rest, handled := b.desk.handled ++ [st]} := .handle taken first
    refine .inr ?_
    simpa only [Board.desk,same] using moved
  | worked ran busy moved =>
    obtain ⟨head,list⟩ := workedAside ran busy moved
    refine .inl ?_
    simp only [Board.desk,head,list]
  | ended taken spent free => exact .inr (.finish taken spent)

theorem stepWorkInv {b c : Board} (step : Step b c) (inv : WorkList.Inv b.desk) : WorkList.Inv c.desk := by
  rcases stepDesk step with same | moved
  · rw [same]
    exact inv
  · exact stepInv moved inv

def Handed (b : Board) : Prop := b.worker.job ≠ none → b.run = .taken

theorem stepHanded {b c : Board} (step : Step b c) (handed : Handed b) : Handed c := by
  cases step with
  | handler ran => exact handed
  | asked st => exact handed
  | scheduled owes => exact handed
  | begun pending free =>
    intro busy
    have taken := handed busy
    rw [free] at taken
    cases taken
  | spliced begun => exact fun _ => rfl
  | took st rest reply taken first free => exact fun _ => taken
  | worked ran busy moved => exact fun _ => handed busy
  | ended taken spent free => exact fun busy => absurd free busy

inductive Flush : Board × Wait → Board × Wait → Prop where
  | step {b c w} (step : Step b c) : Flush (b,w) (c,w.next c.pending c.run)

def Board.flushWork (b : Board) : Board × Wait := (b,.call b.pending b.run)

structure Waiting (asked : List DevStTransition) (i : Nat) (x : Board × Wait) : Prop where
  awaited : Awaited asked i x.1.desk x.2
  handed : Handed x.1
  past : x.2 = .returned → x.1.worker.job ≠ none → i+1 < x.1.handled.length

theorem callWaiting {b : Board} {i : Nat} (inv : WorkList.Inv b.desk) (handed : Handed b) (inside : i < b.queued.length)
    (away : i ∉ b.owed) : Waiting b.queued i b.flushWork := by
  refine ⟨.call inv inside away,handed,fun returned busy => ?_⟩
  have taken := handed busy
  simp only [Board.flushWork,Wait.call] at returned
  split at returned
  · cases returned
  · rw [if_neg (by rw [taken]; nofun)] at returned
    cases returned

theorem stepWaiting {asked : List DevStTransition} {i : Nat} {x y : Board × Wait} (moved : Flush x y)
    (before : Waiting asked i x) :
    Waiting asked i y := by
  cases moved with
  | @step b c w step =>
    obtain ⟨awaited,handed,past⟩ := before
    have handed' := stepHanded step handed
    have awaited' : Awaited asked i c.desk (w.next c.pending c.run) := by
      rcases stepDesk step with same | work
      · have still : w.next c.desk.pending c.desk.run = w := by
          rw [same]
          exact awaited.still
        rw [show w.next c.pending c.run = w from still,same]
        exact awaited
      · exact awaited.step work
    refine ⟨awaited',handed',fun returned busy => ?_⟩
    have returned : w.next c.pending c.run = .returned := returned
    -- a wait that ends here finds the worker idle
    have taken := handed' busy
    have was : w = .returned := by
      cases w with
      | returned => rfl
      | running =>
        rw [Wait.next,taken,if_neg (by decide)] at returned
        cases returned
      | queued =>
        rw [Wait.next] at returned
        split at returned <;> cases returned
    subst was
    have behind : i < b.handled.length := awaited.returned.1
    cases step with
    | handler ran => exact past rfl busy
    | asked st => exact past rfl busy
    | scheduled i owes => exact past rfl busy
    | begun pending free => exact past rfl busy
    | spliced begun => exact past rfl busy
    | took st rest reply taken first free =>
      show i+1 < (b.handled ++ [st]).length
      rw [List.length_append,List.length_singleton]
      omega
    | worked ran was moved => exact past rfl was
    | ended taken spent free => exact past rfl busy

structure Orderly (b : Board) : Prop where
  order : b.queued = b.handled ++ b.worker.head ++ b.worker.host.transitionList
  coming : ∀ i < b.queued.length, i ∉ b.owed → i < (b.handled ++ b.worker.head).length ∨ b.pending = true ∨ b.run = .begun
  flush : ∀ i < b.queued.length, i ∉ b.owed → ∀ c, ReflTransGen Flush b.flushWork (c,.returned) →
    c.handled[i]? = b.queued[i]? ∧ (c.worker.job ≠ none → i+1 < c.handled.length)

theorem transitionsHandled {h : Host} {b : Board} (empty : h.transitionList = []) (run : ReflTransGen Step (.start h) b) :
    Orderly b ∧ (b.owed = [] → b.pending = false → b.run = .idle → b.handled = b.queued) := by
  have first : WorkList.Inv (Board.start h).desk := by
    have same : (Board.start h).desk = .empty := by simp [Board.start,Board.desk,Worker.start,Desk.empty,empty]
    rw [same]
    exact invEmpty
  have inv := Runs.keeps (I := fun b => WorkList.Inv b.desk) (fun _ _ => stepWorkInv) run first
  have handed := Runs.keeps (I := Handed) (fun _ _ => stepHanded) run (fun busy => absurd rfl busy)
  refine ⟨⟨inv.split,inv.coming,fun i inside away c on => ?_⟩,fun owed still idle => inv.rest owed still idle⟩
  have last := Runs.keeps (I := Waiting b.queued i) (fun _ _ => stepWaiting) on (callWaiting inv handed inside away)
  exact ⟨last.awaited.returned.2,last.past rfl⟩

namespace Sample

def host : Host := PowerDown.Sample.host
def reply : ItemReply := PowerDown.Sample.reply

def asked : Board := (Board.start host).withHost (mhiQueueStateTransition host .ready)
def scheduled : Board := {asked with owed := asked.owed.erase 0, pending := true}
def begun : Board := {scheduled with pending := false, run := .begun}
def spliced : Board := {begun with
  worker := {begun.worker with host := {begun.worker.host with transitionList := []}, head := begun.worker.host.transitionList}
  run := .taken}
def later : Board := spliced.withHost (mhiQueueStateTransition spliced.worker.host .missionMode)
def took : Board := {later with
  worker := ⟨(beginItem later.worker.host .ready reply).1,[],(beginItem later.worker.host .ready reply).2,later.worker.phase⟩
  handled := later.handled ++ [.ready]}
def rested : Board := {took with run := .idle}

theorem runs : ReflTransGen Step (.start host) rested := by
  have one : Step (.start host) asked := .asked .ready
  have two : Step asked scheduled := .scheduled 0 (by decide)
  have three : Step scheduled begun := .begun rfl rfl
  have four : Step begun spliced := .spliced rfl
  have five : Step spliced later := .asked .missionMode
  have six : Step later took := .took .ready [] reply rfl rfl rfl
  have seven : Step took rested := .ended rfl rfl rfl
  exact ((((((ReflTransGen.single one).tail two).tail three).tail four).tail five).tail six).tail seven

end Sample

theorem transitionsHandledSample : Sample.rested.handled = [.ready] ∧ Sample.rested.worker.host.transitionList = [.missionMode] ∧
    Orderly Sample.rested ∧ (Sample.rested.owed = [] → Sample.rested.pending = false → Sample.rested.run = .idle →
      Sample.rested.handled = Sample.rested.queued) :=
  ⟨rfl,by decide +kernel,transitionsHandled rfl Sample.runs⟩

end MhiHost.TransitionQueue

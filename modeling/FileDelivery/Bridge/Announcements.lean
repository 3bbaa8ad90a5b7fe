import FileDelivery.Bridge.Background

namespace FileDelivery.Bridge.Announcements
open FileDelivery.Library FileDelivery.Control

/-- What a run tells the subscribers of its task at its end; `close` is the sentinel of
`close_task`. -/
inductive Announcement where
  | task_done
  | task_failed (error : String)
  | close
  deriving DecidableEq, Repr

/-- What goes out on the bus with a step of a run, of which `published` messages get through before
the bus raises or the process dies. -/
def announced (run : TaskRun) (published : Nat) : RunAction → List Announcement
  | .publish => [.task_done, .close]
  | .raise _ => if run.stage = .finished then [Announcement.task_done].take published else []
  | .fail | .lose =>
    match run.stage with
    | .failing error => [.task_failed (TaskRunner.clip 200 error), .close].take published
    | _ => []
  | _ => []

/-- The python backend with its announcements and a record of what its runs have done. -/
structure State where
  base : Background.State
  /-- Each with the run that it came from. -/
  sent : List (Nat × Announcement)
  /-- The runs that have found their task in another status than `confirmed`. -/
  surplus : List Nat
  /-- The runs that have changed a row of a task or an item. -/
  wrote : List Nat

structure Action where
  action : Background.Action
  published : Nat

def initial : State := ⟨Background.initial, [], [], []⟩

/-- A read of the task would find it in another status. -/
def superfluous (db : Db) (task_id : Nat) : Bool :=
  (TaskRepo.get db task_id none).any (·.status ≠ .confirmed)

/-- The record after a step of a run. -/
def recorded (s : State) (base : Background.State) (run : TaskRun) (published : Nat)
    (action : RunAction) : State where
  base := base
  sent := s.sent ++ (announced run published action).map (run.rid, ·)
  surplus := if action = .read ∧ superfluous s.base.base.db run.task_id = true
    then run.rid :: s.surplus else s.surplus
  wrote := if base.base.db.tasks = s.base.base.db.tasks ∧ base.base.db.items = s.base.base.db.items
    then s.wrote else run.rid :: s.wrote

def step (cfg : Config) (s : State) (a : Action) : Option State :=
  (Background.step cfg s.base a.action).map (fun base =>
    match a.action with
    | .run rid action =>
      match Rows.find? s.base.runs rid with
      | some run => recorded s base run a.published action
      | none => { s with base := base }
    | _ => { s with base := base })

end FileDelivery.Bridge.Announcements

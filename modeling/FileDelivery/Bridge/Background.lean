import FileDelivery.Bridge.System
import FileDelivery.Control.TaskRunner

namespace FileDelivery.Bridge.Background
open FileDelivery.Library FileDelivery.Control

/-- The control plane with `delivery_backend` `"python"`: its requests, and the
background tasks that it has scheduled. -/
structure State where
  base : Bridge.State
  runs : List TaskRun

inductive Action where
  | request (action : Bridge.Action)
  /-- An upload request whose claim is granted schedules its run and ends. -/
  | schedule (rid : Nat)
  | run (rid : Nat) (action : RunAction)

def initial : State := ⟨Bridge.initial, []⟩

/-- The steps that do not depend on the backend. -/
def shared : Bridge.Action → Bool
  | .upload _ .acquire | .upload _ .crash => true
  | .upload _ _ | .worker _ | .apply _ => false
  | _ => true

/-- The claim stays until it expires, where there is one to take. -/
def schedule (s : State) (rid : Nat) : Option State :=
  (Rows.find? s.base.uploads rid).bind (fun r =>
    if r.stage = .claimed then
      some {
        base := { s.base with
          db := EventRepo.append s.base.db r.task.id (.task_upload_requested r.actor)
          uploads := Rows.erase s.base.uploads rid
          next_request := s.base.next_request + 1 }
        runs := s.runs ++ [⟨s.base.next_request, r.task.id, .fresh, .starting, []⟩] }
    else none)

/-- What a run's step leaves in the sink. -/
def sinkAfter (cfg : Config) (sink : Objects Bytes) (run : TaskRun) : RunAction → Objects Bytes
  | .item item_id (.store data) =>
    match Rows.find? run.items item_id with
    | some i => sink.put cfg.settings.s3_bucket_name i.item.dst_path data
    | none => sink
  | _ => sink

/-- Move a run on, or drop it. -/
def setRun (runs : List TaskRun) (rid : Nat) : Option TaskRun → List TaskRun
  | some run => Rows.update runs rid (fun _ => run)
  | none => Rows.erase runs rid

def advance (cfg : Config) (s : State) (rid : Nat) (action : RunAction) : Option State :=
  (Rows.find? s.runs rid).bind (fun run =>
    (TaskRunner.run_task s.base.db run action).map (fun (db, next) =>
      { base := { s.base with db := db, sink := sinkAfter cfg s.base.sink run action }
        runs := setRun s.runs rid next }))

def step (cfg : Config) (s : State) : Action → Option State
  | .request action =>
    if shared action then (Bridge.step cfg s.base action).map (fun base => { s with base := base })
    else none
  | .schedule rid => schedule s rid
  | .run rid action => advance cfg s rid action

end FileDelivery.Bridge.Background

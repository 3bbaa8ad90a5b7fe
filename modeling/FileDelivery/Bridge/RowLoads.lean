import FileDelivery.Bridge.Platform

namespace FileDelivery.Bridge.RowLoads
open FileDelivery.Library FileDelivery.Control

/-- A system in which each step has the tables for itself. -/
structure System (σ α : Type) where
  initial : σ
  step : Config → σ → α → Option σ
  db : σ → Db
  setDb : σ → Db → σ
  setDb_db : ∀ s, setDb s (db s) = s
  /-- Its session may write a column as it has loaded it. What a confirmation, a retry or an upload
  request writes differs from what it has loaded, or is written by one statement. -/
  rewrites : α → Bool

def rewrites : Bridge.Action → Bool
  | .classify _ _ _ | .apply _ => true
  | _ => false

def goWorker : System Bridge.State Bridge.Action where
  initial := Bridge.initial
  step := Bridge.step
  db := fun s => s.db
  setDb := fun s db => { s with db := db }
  setDb_db := fun _ => rfl
  rewrites := rewrites

def setBackgroundDb (s : Background.State) (db : Db) : Background.State :=
  { s with base := { s.base with db := db } }

def background : System Background.State Background.Action where
  initial := Background.initial
  step := Background.step
  db := fun s => s.base.db
  setDb := setBackgroundDb
  setDb_db := fun _ => rfl
  rewrites
    | .request action => rewrites action
    | .schedule _ => false
    | .run _ _ => true

def platform : System Platform.State Platform.Action where
  initial := Platform.initial
  step := Platform.step
  db := fun s => s.base.db
  setDb := setBackgroundDb
  setDb_db := fun _ => rfl
  rewrites
    | .request action => rewrites action
    | .schedule _ => false
    | .run _ _ | .deliver _ => true

/-- A session with the rows that it has loaded. -/
structure Session where
  sid : Nat
  tasks : List Task
  items : List TaskItem
  deriving DecidableEq, Repr

instance : Rows.Row Session := ⟨Session.sid⟩

/-- The system, where other commits may come between the load of a row and the commit of what is
written to it. -/
structure State (σ : Type) where
  base : σ
  sessions : List Session
  next_session : Nat

inductive Action (α : Type) where
  | base (action : α)
  | start
  | loadTask (sid task_id : Nat)
  | loadItem (sid item_id : Nat)
  /-- The session does what is left to do, and commits. -/
  | land (sid : Nat) (action : α)
  /-- It rolls back, or its process dies. -/
  | drop (sid : Nat)

variable {σ α : Type}

/-- An `UPDATE` leaves out the columns that have the value which the session has loaded. -/
def writtenTask (loaded row after : Task) : Task :=
  { after with
    status := if after.status = loaded.status then row.status else after.status
    summary_json := if after.summary_json = loaded.summary_json then row.summary_json else after.summary_json }

/-- An aware time is never equal to a loaded one. -/
def writtenItem (loaded row after : TaskItem) : TaskItem :=
  { after with
    upload_status := if after.upload_status = loaded.upload_status then row.upload_status else after.upload_status
    upload_error := if after.upload_error = loaded.upload_error then row.upload_error else after.upload_error
    uploaded_at :=
      if after.uploaded_at = none ∧ loaded.uploaded_at = none then row.uploaded_at else after.uploaded_at }

def settleTask (before after : Db) (loaded : Task) : Db :=
  match Rows.find? before.tasks loaded.id with
  | some row => { after with tasks := Rows.update after.tasks loaded.id (writtenTask loaded row) }
  | none => after

def settleItem (before after : Db) (loaded : TaskItem) : Db :=
  match Rows.find? before.items loaded.id with
  | some row => { after with items := Rows.update after.items loaded.id (writtenItem loaded row) }
  | none => after

def settle (before after : Db) (session : Session) : Db :=
  session.items.foldl (settleItem before) (session.tasks.foldl (settleTask before) after)

section
variable (sys : System σ α) (cfg : Config) (s : State σ)

def initial : State σ := ⟨sys.initial, [], 0⟩

/-- A session loads a row once. -/
def loadTask (sid task_id : Nat) : Option (State σ) :=
  (Rows.find? s.sessions sid).bind (fun session =>
    if (Rows.find? session.tasks task_id).isSome then none
    else (Rows.find? (sys.db s.base).tasks task_id).map (fun task =>
      { s with
        sessions := Rows.update s.sessions sid (fun session => { session with tasks := session.tasks ++ [task] }) }))

def loadItem (sid item_id : Nat) : Option (State σ) :=
  (Rows.find? s.sessions sid).bind (fun session =>
    if (Rows.find? session.items item_id).isSome then none
    else (Rows.find? (sys.db s.base).items item_id).map (fun item =>
      { s with
        sessions := Rows.update s.sessions sid (fun session => { session with items := session.items ++ [item] }) }))

/-- Rows that have not been loaded before are loaded as the session lands. -/
def land (sid : Nat) (action : α) : Option (State σ) :=
  if sys.rewrites action then
    (Rows.find? s.sessions sid).bind (fun session =>
      (sys.step cfg s.base action).map (fun t =>
        { s with
          base := sys.setDb t (settle (sys.db s.base) (sys.db t) session)
          sessions := Rows.erase s.sessions sid }))
  else none

def step : Action α → Option (State σ)
  | .base action => (sys.step cfg s.base action).map (fun base => { s with base := base })
  | .start =>
    some { s with
      sessions := s.sessions ++ [⟨s.next_session, [], []⟩]
      next_session := s.next_session + 1 }
  | .loadTask sid task_id => loadTask sys s sid task_id
  | .loadItem sid item_id => loadItem sys s sid item_id
  | .land sid action => land sys cfg s sid action
  | .drop sid => (Rows.find? s.sessions sid).map (fun _ => { s with sessions := Rows.erase s.sessions sid })

end
end FileDelivery.Bridge.RowLoads

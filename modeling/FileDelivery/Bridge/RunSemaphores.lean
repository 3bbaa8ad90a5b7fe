import FileDelivery.Bridge.Platform
import FileDelivery.Library.Semaphores

namespace FileDelivery.Bridge.RunSemaphores
open FileDelivery.Library FileDelivery.Library.Semaphores FileDelivery.Control

/-- The platform, whose runs let their items in one by one. -/
structure State where
  base : Platform.State
  /-- How far an item of a run has got into the `target_sem` and the `file_sem` of that run. -/
  gates : Nat → Nat → Gate

inductive Action where
  | platform (action : Platform.Action)
  /-- An item gets the permit that it waits for. -/
  | enter (rid item_id : Nat)

def initial : State := ⟨Platform.initial, fun _ _ => .outside⟩

/-- `asyncio.Semaphore` takes no negative value, and `_upload_item` does nothing outside of both. -/
def Admitted (limits : Limits) (s : State) : Platform.Action → Prop
  | .run _ .plan => 0 ≤ limits.outer ∧ 0 ≤ limits.inner
  | .run rid (.item item_id _) => s.gates rid item_id = .inside
  | _ => True

instance (limits : Limits) (s : State) : (a : Platform.Action) → Decidable (Admitted limits s a)
  | .run _ .plan => inferInstanceAs (Decidable (_ ∧ _))
  | .run rid (.item item_id _) => inferInstanceAs (Decidable (s.gates rid item_id = .inside))
  | .run _ .read | .run _ .start | .run _ .list | .run _ .complete | .run _ .finalize | .run _ .publish
  | .run _ (.raise _) | .run _ .fail | .run _ .lose | .run _ .leave | .run _ .crash => .isTrue trivial
  | .request _ | .schedule _ | .deliver _ => .isTrue trivial

/-- The items that have not left their semaphores for good. -/
def active (run : TaskRun) : List ItemRun := run.items.filter (fun c => !c.stage.over)

def State.gateOf (s : State) (rid : Nat) (c : ItemRun) : Gate := s.gates rid c.item.id

def State.enter (s : State) (rid item_id : Nat) : State :=
  { s with
    gates := Function.update s.gates rid
      (Function.update (s.gates rid) item_id (s.gates rid item_id).enter) }

/-- The limits are `worker_max_target_concurrent` and `worker_max_file_concurrent`. -/
def step (cfg : Config) (limits : Limits) (s : State) : Action → Option State
  | .platform action =>
    if Admitted limits s action then
      (Platform.step cfg s.base action).map (fun base => { s with base := base })
    else none
  | .enter rid item_id =>
    (Rows.find? s.base.runs rid).bind (fun run =>
      (Rows.find? (active run) item_id).bind (fun c =>
        if mayEnter limits (s.gateOf rid) (active run) c then some (s.enter rid item_id) else none))

end FileDelivery.Bridge.RunSemaphores

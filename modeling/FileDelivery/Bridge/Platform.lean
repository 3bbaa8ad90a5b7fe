import FileDelivery.Bridge.Background

namespace FileDelivery.Bridge.Platform
open FileDelivery.Control

/-- The control plane with what acts on it under either backend, and with results of any
content that a producer may put on the results topic. -/
inductive Action where
  | request (action : Bridge.Action)
  | schedule (rid : Nat)
  | run (rid : Nat) (action : RunAction)
  | deliver (message : DeliveryResultMessage)

abbrev State := Background.State

def initial : State := Background.initial

def deliver (cfg : Config) (s : State) (message : DeliveryResultMessage) : State :=
  { s with base := { s.base with
    db := (apply_delivery_result cfg.settings.s3_bucket_name s.base.db message).1 } }

def step (cfg : Config) (s : State) : Action → Option State
  | .request action => (Bridge.step cfg s.base action).map (fun base => { s with base := base })
  | .schedule rid => Background.schedule s rid
  | .run rid action => Background.advance cfg s rid action
  | .deliver message => some (deliver cfg s message)

end FileDelivery.Bridge.Platform

import FileDelivery.Control.Delivery

namespace FileDelivery.Control.ResultSession
open FileDelivery.Control

/-- A record of the batch, with the answer its lease request gets. -/
structure Record where
  message : DeliveryResultMessage
  acquired : Bool
  deriving DecidableEq, Repr

/-- The calls of `consume_delivery_results` and of its caller that something outside
the process notices. -/
inductive Op where
  | consume_records
  | acquire (message : DeliveryResultMessage)
  | apply (message : DeliveryResultMessage)
  | ack (message : DeliveryResultMessage)
  | release (message : DeliveryResultMessage)
  | close
  | commit
  deriving DecidableEq, Repr

/-- One turn of the loop over the records. -/
def recordOps (r : Record) : List Op :=
  if r.acquired then [.acquire r.message, .apply r.message, .ack r.message, .release r.message]
  else [.acquire r.message]

/-- `consume_delivery_results`, and the commit that it leaves to its caller. -/
def callOps (records : List Record) : List Op :=
  .consume_records :: records.flatMap recordOps ++ [.close, .commit]

structure Session where
  /-- What other transactions, and a restart, see. -/
  durable : Db
  /-- What this transaction sees. -/
  view : Db
  /-- Messages whose ack was executed. -/
  acked : List DeliveryResultMessage

def exec (bucket_name : Text) (s : Session) : Op → Session
  | .apply m => { s with view := (apply_delivery_result bucket_name s.view m).1 }
  | .ack m => { s with acked := s.acked ++ [m] }
  | .commit => { s with durable := s.view }
  | .consume_records | .acquire _ | .release _ | .close => s

def rollback (s : Session) : Session := { s with view := s.durable }

/-- The call, ended by an exception or a crash after `k` of its operations. -/
def interrupted (bucket_name : Text) (db : Db) (records : List Record) (k : Nat) : Session :=
  rollback (((callOps records).take k).foldl (exec bucket_name) ⟨db, db, []⟩)

/-- The database after a sequence of results. -/
def applied (bucket_name : Text) (db : Db) (ms : List DeliveryResultMessage) : Db :=
  ms.foldl (fun db m => (apply_delivery_result bucket_name db m).1) db

/-- Each acked message is among those whose updates the durable state holds. -/
def AckedDurable (bucket_name : Text) (start : Db) (s : Session) : Prop :=
  ∀ m ∈ s.acked, ∃ ms, m ∈ ms ∧ s.durable = applied bucket_name start ms

end FileDelivery.Control.ResultSession

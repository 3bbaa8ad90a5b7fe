import FileDelivery.Bridge.System
import FileDelivery.Library.Runs

namespace FileDelivery.Bridge
open FileDelivery.Library FileDelivery.Library.Runs FileDelivery.Control

variable (ok : State → Action → Prop) [∀ s a, Decidable (ok s a)] {p q : State → Prop}
  [DecidablePred p] [DecidablePred q]

theorem run_of_replay (cfg : Config) (s : State) (actions : List Action)
    (h : (replay (step cfg) ok s actions).any (fun t => decide (p t)) = true) :
    ∃ t, Run (step cfg) ok s t ∧ p t :=
  replay_reaches (step cfg) ok s actions h

/-- A run in two parts, with something to see after each. -/
theorem runs_of_replay (cfg : Config) (s : State) (actions more : List Action)
    (h : (replay (step cfg) ok s actions).any (fun t => decide (p t ∧
      (replay (step cfg) ok t more).any (fun u => decide (q u)) = true)) = true) :
    ∃ t u, Run (step cfg) ok s t ∧ p t ∧ Run (step cfg) ok t u ∧ q u := by
  obtain ⟨t, ht, hp, hrest⟩ := run_of_replay ok cfg s actions h
  obtain ⟨u, hu, hq⟩ := run_of_replay ok cfg t more hrest
  exact ⟨t, u, ht, hp, hu, hq⟩

/-- No step fails, no claim expires, and each result is applied once. -/
def Smooth (s : State) : Action → Prop
  | .upload _ (.stage raised) => raised = false
  | .upload _ (.publishRaises _) | .upload _ .raise | .upload _ .crash => False
  | .worker (.item _ _ fault) => fault = none
  | .worker (.crash _) | .cleanup (.crash _) | .cleanup (.delete _ false) | .expire _ => False
  | .apply pid => pid ∉ s.applied
  | _ => True

instance (s : State) : (a : Action) → Decidable (Smooth s a)
  | .upload _ (.stage raised) => inferInstanceAs (Decidable (raised = false))
  | .upload _ (.publishRaises _) | .upload _ .raise | .upload _ .crash => .isFalse id
  | .worker (.item _ _ fault) => inferInstanceAs (Decidable (fault = none))
  | .worker (.crash _) | .cleanup (.crash _) | .cleanup (.delete _ false) | .expire _ => .isFalse id
  | .apply pid => inferInstanceAs (Decidable (pid ∉ s.applied))
  | .create _ _ _ _ | .classify _ _ _ | .read _ _ _ | .write _ | .uploadRead _ _ | .workspace _ _ _ _
  | .tick => .isTrue trivial
  | .upload _ .acquire | .upload _ .list | .upload _ .record | .upload _ .publish | .upload _ .write
  | .upload _ .commit | .upload _ .delete | .upload _ .recordDelete | .upload _ .release => .isTrue trivial
  | .worker (.start _ _) | .worker (.produce _) | .worker (.ack _) => .isTrue trivial
  | .cleanup (.read _ _) | .cleanup (.delete _ true) | .cleanup (.commit _) => .isTrue trivial

namespace Sample

/-- ASCII names, no fuzzy matches, archives that cost their payload. -/
def py : Python where
  lower := fun t => t.map Char.toLower
  repr := String.ofList
  decodeGbk := fun _ => none
  isDecimal := Char.isDigit
  ratio := fun _ _ => 0
  formatField := fun _ _ _ _ => none
  zipSize := fun archive => archive.foldl (fun size entry => size + entry.file_size) 0
  readZip := fun _ => none
  zipSha256 := fun _ => ""

def cfg : Config where
  py := py
  settings := {
    task_dir_base := "tasks"
    s3_bucket_name := "sink"
    staging_bucket_name := "staging"
    delivery_transport := .kafka
    object_source := true
    redis_idempotency_enabled := true
    limits := ⟨100, 1000, 1000⟩ }
  archive_resolver := true
  sha256 := fun _ => ""
  refuses := fun _ _ => none

def profile : ProfileConfig :=
  { ProfileConfig.default with
    targets := [⟨"acme", [], false⟩, ⟨"beta", [], false⟩]
    document_types := ⟨[("report".toList, ⟨"finance"⟩)], by decide⟩
    suffix_priority := ⟨[(".txt".toList, "report".toList)], by decide⟩ }

def actor : CurrentActor := ⟨"hq", "u1", .hq_uploader⟩

/-- A task with one file per name, classified and confirmed; its key is `t`, its
confirm request is `rid`. -/
def confirmed (t rid : Nat) (files : List (Text × Bytes)) : List Action :=
  [.create actor (toString t) files none, .classify actor t profile, .read .confirm actor t, .write rid]

/-- An upload request `rid` without incident. -/
def upload (t rid : Nat) : List Action :=
  .uploadRead actor t :: [UploadAction.acquire, .list, .stage false, .record, .publish, .write,
    .commit, .release].map (.upload rid)

/-- A worker's run `wid` of the message at `mid`, item by item, up to its ack. -/
def run (wid mid : Nat) (faults : List (Option ItemFault)) : List Action :=
  .worker (.start mid 0) :: faults.mapIdx (fun index fault => .worker (.item wid index fault)) ++
    [.worker (.produce wid), .worker (.ack wid)]

/-- A retry request `rid`. -/
def retry (t rid : Nat) : List Action := [.read .retry actor t, .write rid]

/-- A workspace for each target of the profile. -/
def workspaces : List Action :=
  [.workspace "Acme" "hq" "acme" "acme", .workspace "Beta" "hq" "beta" "beta"]

end Sample
end FileDelivery.Bridge

import FileDelivery.Control.S3Uploader
import FileDelivery.Library.Fallible
import FileDelivery.Library.Runs

namespace FileDelivery.Proofs.WholeUpload
open FileDelivery.Library FileDelivery.Library.Multipart FileDelivery.Library.Runs
open FileDelivery.Control FileDelivery.Control.S3Uploader

theorem iterFrom_eq (data : Bytes) (h : 0 < n) (offset : Nat) :
    iterFrom data n h offset = chunks n h (data.drop offset) := by
  induction offset using iterFrom.induct data n h with
  | case1 offset hlt ih =>
    have hne : data.drop offset ≠ [] := by
      intro he
      have := congrArg List.length he
      rw [List.length_drop, List.length_nil] at this
      omega
    rw [iterFrom, if_pos hlt, ih, chunks_cons hne, List.drop_drop]
  | case2 offset hge =>
    rw [iterFrom, if_neg hge, List.drop_eq_nil_of_le (Nat.le_of_not_lt hge), chunks_nil]

theorem iter_chunks_eq (data : Bytes) : _iter_chunks data = chunks CHUNK_SIZE (by decide) data :=
  iterFrom_eq data (by decide) 0

/-- The parts of an object: all of it in order, none empty, each but the last a full chunk. -/
theorem iter_chunks_whole (data : Bytes) : (_iter_chunks data).flatten = data ∧
    ∀ i body, (_iter_chunks data)[i]? = some body → body ≠ [] ∧ body.length ≤ CHUNK_SIZE ∧
      (i + 1 < (_iter_chunks data).length → body.length = CHUNK_SIZE) := by
  rw [iter_chunks_eq]
  exact ⟨chunks_joined _ data, fun i body h => length_chunk _ data h⟩

section Gathered
variable {tasks : List PartTask} {parts : List (Nat × Text)} {task : PartTask} {i : Nat}

/-- `gather` keeps the order of its parts, whatever order they end in. -/
theorem gathered_get (h : gathered tasks = some parts) : parts.length = tasks.length ∧
    ∀ i etag, tasks[i]? = some (.uploaded etag) → parts[i]? = some (i + 1, etag) := by
  obtain ⟨etags, hetags, rfl⟩ := Option.map_eq_some_iff.mp h
  have hmap := Fallible.mapM_eq_map hetags []
  refine ⟨by simp [hmap], fun i etag hi => ?_⟩
  simp [hmap, List.getElem?_mapIdx, hi, PartTask.etag]

theorem gathered_all (h : gathered tasks = some parts) (ht : tasks[i]? = some task) :
    ∃ etag, task = .uploaded etag := by
  obtain ⟨etags, hetags, _⟩ := Option.map_eq_some_iff.mp h
  obtain ⟨etag, _, hetag⟩ := Fallible.mapM_mem hetags (List.mem_of_getElem? ht)
  cases task with
  | uploaded e => exact ⟨e, rfl⟩
  | pending => cases hetag
  | failed e => cases hetag

theorem gathered_some (h : ∀ (i : Nat) task, tasks[i]? = some task → ∃ etag, task = .uploaded etag) :
    ∃ parts, gathered tasks = some parts := by
  obtain ⟨etags, hetags⟩ := Fallible.mapM_some (f := PartTask.etag) (l := tasks) (by
    intro task hmem
    obtain ⟨i, hi⟩ := List.mem_iff_getElem?.mp hmem
    obtain ⟨etag, rfl⟩ := h i task hi
    exact ⟨etag, rfl⟩)
  exact ⟨_, by rw [gathered, hetags, Option.map_some]⟩

theorem gathered_numbers (h : gathered tasks = some parts) :
    parts.map (·.1) = List.range' 1 tasks.length := by
  obtain ⟨hlen, hget⟩ := gathered_get h
  refine List.ext_getElem? (fun i => ?_)
  rw [List.getElem?_map]
  rcases Nat.lt_or_ge i tasks.length with hi | hi
  · obtain ⟨etag, hetag⟩ := gathered_all h (List.getElem?_eq_getElem hi)
    rw [hget i etag (by rw [List.getElem?_eq_getElem hi, hetag]), List.getElem?_range' hi]
    simp only [Option.map_some, Option.some.injEq]
    omega
  · rw [List.getElem?_eq_none (hlen ▸ hi), List.getElem?_eq_none (by simpa using hi)]
    rfl

theorem numbers_ascend (h : gathered tasks = some parts) : (parts.map (·.1)).Pairwise (· < ·) := by
  rw [gathered_numbers h]
  exact List.pairwise_lt_range'

/-- The parts are sorted already. -/
theorem parts_sorted (h : gathered tasks = some parts) : partsSorted parts = parts := by
  refine List.Pairwise.insertionSort_eq ?_
  have := List.pairwise_map.mp (numbers_ascend h)
  exact this.imp (fun hlt => Nat.le_of_lt hlt)

/-- With every listed part in its place, completion gives the joined chunks. -/
theorem contents_listed {upload : Upload (Text × Text) Text UInt8} {bodies : List Bytes}
    (h : gathered tasks = some parts) (hlen : tasks.length = bodies.length)
    (hstored : ∀ i etag body, tasks[i]? = some (.uploaded etag) → bodies[i]? = some body →
      upload.parts (i + 1) = some (etag, body)) :
    parts.mapM (Store.listed upload) = some bodies := by
  obtain ⟨hparts, hget⟩ := gathered_get h
  have hlisted : ∀ (i : Nat) (part : Nat × Text), parts[i]? = some part → Store.listed upload part = bodies[i]? := by
    intro i part hi
    have hlt : i < tasks.length := hparts ▸ (List.getElem?_eq_some_iff.mp hi).1
    obtain ⟨etag, hetag⟩ := gathered_all h (List.getElem?_eq_getElem hlt)
    have htask : tasks[i]? = some (.uploaded etag) := by rw [List.getElem?_eq_getElem hlt, hetag]
    have hbody := List.getElem?_eq_getElem (hlen ▸ hlt)
    have hpart := (hget i etag htask).symm.trans hi
    cases hpart
    rw [Store.listed, hstored i etag _ htask hbody, hbody]
    simp
  obtain ⟨contents, hcontents⟩ := Fallible.mapM_some (f := Store.listed upload) (l := parts) (by
    intro part hp
    obtain ⟨i, hi⟩ := List.mem_iff_getElem?.mp hp
    have hlt : i < bodies.length := by
      rw [← hlen, ← hparts]
      exact (List.getElem?_eq_some_iff.mp hi).1
    exact ⟨_, (hlisted i part hi).trans (List.getElem?_eq_getElem hlt)⟩)
  have hmap := Fallible.mapM_eq_map hcontents []
  rw [hcontents, hmap]
  congr 1
  refine List.ext_getElem? (fun i => ?_)
  rw [List.getElem?_map]
  cases hi : parts[i]? with
  | none =>
    have := List.getElem?_eq_none_iff.mp hi
    rw [Option.map_none, List.getElem?_eq_none (by omega)]
  | some part =>
    have hlt : i < bodies.length := by
      rw [← hlen, ← hparts]
      exact (List.getElem?_eq_some_iff.mp hi).1
    rw [Option.map_some, hlisted i part hi, List.getElem?_eq_getElem hlt, Option.getD_some]

end Gathered

/-- The first exception that a call has raised. -/
def firstError (calls : List (Call × Option String)) : Option String := calls.findSome? (·.2)

theorem firstError_ended (run : UploadRun) (call : Call) (error : Option String) :
    firstError (run.ended call error) = (firstError run.calls).or error := by
  rw [firstError, UploadRun.ended, List.findSome?_append]
  cases error <;> rfl

variable {req : Request} {s3 : S3} {run run' : UploadRun} {etag : Text} {failure : Option Failure}

/-- While the parts are on their way, the upload has what their calls have returned for. -/
structure Uploading (req : Request) (s3 : S3) (run : UploadRun) (upload_id : Nat) : Prop where
  id : run.upload_id = some upload_id
  objects : run.s3.objects = s3.objects
  tasks : run.tasks.length = (_iter_chunks req.data).length
  stored : ∃ upload, run.s3.uploads upload_id = some upload ∧ upload.place = req.place ∧
    ∀ i etag body, run.tasks[i]? = some (.uploaded etag) → (_iter_chunks req.data)[i]? = some body →
      upload.parts (i + 1) = some (etag, body)
  clean : firstError run.calls = none

/-- A run that ended in an exception has changed no object, and its upload is aborted. -/
structure Aborted (s3 : S3) (run : UploadRun) : Prop where
  objects : run.s3.objects = s3.objects
  gone : ∀ upload_id, run.upload_id = some upload_id → run.s3.uploads upload_id = none ∧
    (.abort_multipart_upload upload_id, none) ∈ run.calls

/-- A run that returned has put the whole object, and no call has raised or is still to end. -/
structure Returned (req : Request) (s3 : S3) (run : UploadRun) (result : UploadResult) : Prop where
  objects : run.s3.objects = Function.update s3.objects req.place (some req.data)
  clean : firstError run.calls = none
  done : ∀ i : Nat, run.tasks[i]? ≠ some .pending
  bucket : result.bucket = req.bucket
  key : result.key = req.key
  size : result.size_bytes = req.data.length

/-- What holds at each stage; `s3` is the store before the call. -/
def Holds (req : Request) (s3 : S3) (run : UploadRun) : Prop :=
  match run.stage with
  | .starting => run = start s3
  | .uploading => req.large = true ∧ ∃ upload_id, Uploading req s3 run upload_id
  | .aborting error => req.large = true ∧ firstError run.calls = some error ∧
      ∃ upload_id, run.upload_id = some upload_id ∧
        (run.s3.uploads upload_id ≠ none → run.s3.objects = s3.objects)
  | .returned result => Returned req s3 run result
  | .raised error => firstError run.calls = some error ∧ (req.large = true → Aborted s3 run)

theorem Holds.at_uploading (h : Holds req s3 run) (hstage : run.stage = .uploading) :
    req.large = true ∧ ∃ upload_id, Uploading req s3 run upload_id := by
  unfold Holds at h
  rw [hstage] at h
  exact h

theorem Holds.at_start (h : Holds req s3 run) (hstage : run.stage = .starting) : run = start s3 := by
  unfold Holds at h
  rw [hstage] at h
  exact h

/-- The abort does not fail. -/
def AbortSucceeds (_ : UploadRun) : Action → Prop
  | .abort error => error = none
  | _ => True

theorem put_holds (h : Holds req s3 run) (hstage : run.stage = .starting) (hsmall : req.large = false) :
    Holds req s3 (put req run etag failure) := by
  have hstart := h.at_start hstage
  subst hstart
  cases failure with
  | none => exact ⟨rfl, rfl, by simp [put, start], rfl, rfl, rfl⟩
  | some f => exact ⟨rfl, fun hlarge => (by cases hsmall.symm.trans hlarge)⟩

theorem create_holds (h : Holds req s3 run) (hstage : run.stage = .starting) (hlarge : req.large = true) :
    Holds req s3 (create req run failure) := by
  have hstart := h.at_start hstage
  subst hstart
  cases failure with
  | none =>
    refine ⟨hlarge, s3.next, rfl, rfl, List.length_map _, ⟨_, Store.create_self s3 req.place, rfl, ?_⟩, rfl⟩
    intro i etag body hi
    simp only [create, Option.isNone_none, if_true, List.getElem?_map, Option.map_eq_some_iff] at hi
    obtain ⟨_, _, hi⟩ := hi
    cases hi
  | some f =>
    refine ⟨rfl, fun _ => ⟨?_, fun upload_id hid => ?_⟩⟩
    · show (if f.done = true then s3.create req.place else s3).objects = s3.objects
      split
      all_goals rfl
    · cases hid

/-- What a part's call leaves in the store. -/
theorem part_store (run : UploadRun) (upload_id i : Nat) (body : Bytes) (etag : Text)
    (failure : Option Failure) :
    (part run upload_id i body etag failure).s3 = run.s3 ∨
      run.s3.uploadPart upload_id (i + 1) etag body =
        some (part run upload_id i body etag failure).s3 := by
  simp only [part]
  split
  · cases hs : run.s3.uploadPart upload_id (i + 1) etag body with
    | none => exact .inl rfl
    | some stored => exact .inr rfl
  · exact .inl rfl

/-- A part leaves all objects, and an upload that is gone. -/
theorem part_frame (run : UploadRun) (upload_id i : Nat) (body : Bytes) (etag : Text)
    (failure : Option Failure) :
    (part run upload_id i body etag failure).s3.objects = run.s3.objects ∧
      (run.s3.uploads upload_id = none →
        (part run upload_id i body etag failure).s3.uploads upload_id = none) := by
  rcases part_store run upload_id i body etag failure with hs | hs
  · rw [hs]
    exact ⟨rfl, id⟩
  · obtain ⟨hobjects, upload, hu, _⟩ := Store.uploadPart_frame hs
    exact ⟨hobjects, fun hnone => absurd (hnone.symm.trans hu) (by simp)⟩

/-- Of a part that returns, the upload has what it sent. -/
theorem part_uploading (h : Uploading req s3 run upload_id) (htask : run.tasks[i]? = some .pending)
    (hbody : (_iter_chunks req.data)[i]? = some body) :
    Uploading req s3 (part run upload_id i body etag none) upload_id := by
  obtain ⟨upload, hu, hplace, hstored⟩ := h.stored
  have hput : run.s3.uploadPart upload_id (i + 1) etag body =
      some (part run upload_id i body etag none).s3 := by
    simp [part, carriedOut, Store.uploadPart, hu]
  obtain ⟨hobjects, found, hfound, hparts⟩ := Store.uploadPart_frame hput
  cases hu.symm.trans hfound
  have herror : (run.s3.uploadPart upload_id (i + 1) etag body).isNone = false := by
    rw [hput]
    rfl
  have htasks : (part run upload_id i body etag none).tasks = run.tasks.set i (.uploaded etag) := by
    simp [part, herror]
  have hcalls : (part run upload_id i body etag none).calls =
      run.ended (.upload_part upload_id (i + 1) body) none := by
    simp [part, herror]
  refine ⟨h.id, hobjects.trans h.objects, ?_, ⟨_, hparts, hplace, fun j tag other hj hother => ?_⟩, ?_⟩
  · rw [htasks, List.length_set, h.tasks]
  · rw [htasks] at hj
    by_cases hij : i = j
    · subst hij
      rw [List.getElem?_set_self (List.getElem?_eq_some_iff.mp htask).1] at hj
      cases hj
      cases hbody.symm.trans hother
      exact Function.update_self _ _ _
    · rw [List.getElem?_set_ne hij] at hj
      have hne : j + 1 ≠ i + 1 := fun he => hij (Nat.succ.inj he).symm
      exact (Function.update_of_ne hne _ _).trans (hstored j tag other hj hother)
  · rw [hcalls, firstError_ended, h.clean]
    rfl

/-- A part's call raises or it returns, and only while `gather` waits does that count. -/
theorem part_ends (run : UploadRun) (upload_id i : Nat) (body : Bytes) (etag : Text)
    (failure : Option Failure) : ∃ error,
    (part run upload_id i body etag failure).calls =
      run.ended (.upload_part upload_id (i + 1) body) error ∧
    (run.stage ≠ .uploading → (part run upload_id i body etag failure).stage = run.stage) ∧
    (run.stage = .uploading → ∀ f, failure = some f → error = some f.error ∧
      (part run upload_id i body etag failure).stage = .aborting f.error) := by
  refine ⟨_, rfl, fun hstage => ?_, fun hstage f hf => ?_⟩
  · simp only [part]
    split
    · rename_i heq _
      exact absurd heq hstage
    · rfl
  · subst hf
    exact ⟨rfl, by simp only [part, hstage]⟩

theorem part_holds (h : Holds req s3 run) (hid : run.upload_id = some upload_id)
    (htask : run.tasks[i]? = some .pending) (hbody : (_iter_chunks req.data)[i]? = some body) :
    Holds req s3 (part run upload_id i body etag failure) := by
  obtain ⟨hobjects, hgone⟩ := part_frame run upload_id i body etag failure
  obtain ⟨error, hcalls, hsame, hraise⟩ := part_ends run upload_id i body etag failure
  have hfirst : ∀ e, firstError run.calls = some e →
      firstError (part run upload_id i body etag failure).calls = some e := by
    intro e he
    rw [hcalls, firstError_ended, he, Option.some_or]
  unfold Holds at h
  cases hstage : run.stage with
  | starting =>
    simp only [hstage] at h
    rw [h] at hid
    cases hid
  | uploading =>
    simp only [hstage] at h
    obtain ⟨hlarge, own, hup⟩ := h
    cases hup.id.symm.trans hid
    unfold Holds
    cases failure with
    | none =>
      obtain ⟨upload, hu, _⟩ := hup.stored
      have hstay : (part run upload_id i body etag none).stage = .uploading := by
        simp [part, Store.uploadPart, hu, hstage]
      rw [hstay]
      exact ⟨hlarge, upload_id, part_uploading hup htask hbody⟩
    | some f =>
      obtain ⟨herror, hstay⟩ := hraise hstage f rfl
      rw [hstay]
      refine ⟨hlarge, ?_, upload_id, hid, fun _ => hobjects.trans hup.objects⟩
      rw [hcalls, firstError_ended, hup.clean, herror]
      rfl
  | aborting original =>
    simp only [hstage] at h
    obtain ⟨hlarge, he, own, hown, hkept⟩ := h
    cases hown.symm.trans hid
    unfold Holds
    rw [hsame (by simp [hstage]), hstage]
    refine ⟨hlarge, hfirst original he, upload_id, hid, fun hup => ?_⟩
    exact hobjects.trans (hkept (fun hnone => hup (hgone hnone)))
  | returned result =>
    simp only [hstage] at h
    exact absurd htask (h.done i)
  | raised original =>
    simp only [hstage] at h
    obtain ⟨he, haborted⟩ := h
    unfold Holds
    rw [hsame (by simp [hstage]), hstage]
    refine ⟨hfirst original he, fun hlarge => ?_⟩
    obtain ⟨hkept, hdone⟩ := haborted hlarge
    refine ⟨hobjects.trans hkept, fun own hown => ?_⟩
    cases hid.symm.trans hown
    obtain ⟨hnone, hmem⟩ := hdone upload_id hid
    exact ⟨hgone hnone, hcalls ▸ List.mem_append_left _ hmem⟩

/-- Completion puts the whole object in its place. -/
theorem completes (h : Uploading req s3 run upload_id) (hlarge : req.large = true)
    (hparts : gathered run.tasks = some parts) :
    ∃ completed, run.s3.complete upload_id (partsSorted parts) = some completed ∧
      completed.objects = Function.update s3.objects req.place (some req.data) := by
  obtain ⟨upload, hu, hplace, hstored⟩ := h.stored
  have hjoined := (iter_chunks_whole req.data).1
  have hne : parts ≠ [] := by
    intro he
    have hlen := (gathered_get hparts).1
    rw [he, h.tasks] at hlen
    have hnil := List.length_eq_zero_iff.mp hlen.symm
    rw [hnil] at hjoined
    have hdata : MULTIPART_THRESHOLD ≤ req.data.length := by simpa [Request.large] using hlarge
    rw [← hjoined] at hdata
    exact absurd hdata (by decide)
  have hcomplete := Store.complete_listed hu hne (numbers_ascend hparts)
    (contents_listed hparts h.tasks hstored)
  rw [parts_sorted hparts]
  exact ⟨_, hcomplete, by simp only [hplace, h.objects, hjoined]⟩

theorem complete_holds (h : Holds req s3 run) (hstage : run.stage = .uploading)
    (hid : run.upload_id = some upload_id) (hparts : gathered run.tasks = some parts) :
    Holds req s3 (complete req run upload_id parts etag failure) := by
  obtain ⟨hlarge, own, hup⟩ := h.at_uploading hstage
  cases hup.id.symm.trans hid
  obtain ⟨completed, hcompleted, hobjects⟩ := completes hup hlarge hparts
  unfold Holds
  cases failure with
  | none =>
    have hend : (complete req run upload_id parts etag none).stage = .returned (req.result etag) := by
      simp [complete, hcompleted]
    rw [hend]
    refine ⟨?_, ?_, fun i hi => ?_, rfl, rfl, rfl⟩
    · simpa [complete, carriedOut, hcompleted] using hobjects
    · simp [complete, hcompleted, firstError_ended, hup.clean]
    · obtain ⟨tag, htag⟩ := gathered_all hparts hi
      cases htag
  | some f =>
    have hend : (complete req run upload_id parts etag (some f)).stage = .aborting f.error := by
      simp [complete]
    rw [hend]
    refine ⟨hlarge, ?_, upload_id, hid, fun hleft => ?_⟩
    · have hcalls : (complete req run upload_id parts etag (some f)).calls = run.ended
          (.complete_multipart_upload upload_id (partsSorted parts)) (some f.error) := rfl
      rw [hcalls, firstError_ended, hup.clean]
      rfl
    · cases hd : f.done with
      | false => simpa [complete, carriedOut, hd] using hup.objects
      | true =>
        have hgone := Store.complete_gone hcompleted
        simp [complete, carriedOut, hd, hcompleted, hgone] at hleft

theorem abort_holds (h : Holds req s3 run) (hstage : run.stage = .aborting original)
    (hid : run.upload_id = some upload_id) (hs : abort run upload_id original none = some run') :
    Holds req s3 run' := by
  unfold Holds at h
  rw [hstage] at h
  obtain ⟨_, he, own, hown, hkept⟩ := h
  cases hown.symm.trans hid
  obtain ⟨aborted, haborted, rfl⟩ := Option.map_eq_some_iff.mp hs
  obtain ⟨hleft, hobjects, hgone⟩ := Store.abort_frame haborted
  refine ⟨?_, fun _ => ⟨hobjects.trans (hkept hleft), fun own hown => ?_⟩⟩
  · simp only [firstError_ended, he, Option.some_or]
  · cases hid.symm.trans hown
    exact ⟨hgone, List.mem_append_right _ (List.mem_singleton_self _)⟩

/-- What a step is, action by action. -/
theorem step_cases (h : step req run a = some run') :
    (∃ etag failure, run.stage = .starting ∧ req.large = false ∧ run' = put req run etag failure) ∨
    (∃ failure, run.stage = .starting ∧ req.large = true ∧ run' = create req run failure) ∨
    (∃ upload_id i body etag failure, run.upload_id = some upload_id ∧
      run.tasks[i]? = some .pending ∧ (_iter_chunks req.data)[i]? = some body ∧
      run' = part run upload_id i body etag failure) ∨
    (∃ upload_id parts etag failure, run.stage = .uploading ∧ run.upload_id = some upload_id ∧
      gathered run.tasks = some parts ∧ run' = complete req run upload_id parts etag failure) ∨
    ∃ upload_id original error, a = .abort error ∧ run.stage = .aborting original ∧
      run.upload_id = some upload_id ∧ abort run upload_id original error = some run' := by
  cases a with
  | put etag failure =>
    simp only [step] at h
    split at h
    · rename_i hc
      cases h
      exact .inl ⟨etag, failure, hc.1, hc.2, rfl⟩
    · cases h
  | create failure =>
    simp only [step] at h
    split at h
    · rename_i hc
      cases h
      exact .inr (.inl ⟨failure, hc.1, hc.2, rfl⟩)
    · cases h
  | part i etag failure =>
    simp only [step] at h
    split at h
    · rename_i upload_id body hid htask hbody
      cases h
      exact .inr (.inr (.inl ⟨upload_id, i, body, etag, failure, hid, htask, hbody, rfl⟩))
    · cases h
  | complete etag failure =>
    simp only [step] at h
    split at h
    · rename_i upload_id parts hstage hid hparts
      cases h
      exact .inr (.inr (.inr (.inl ⟨upload_id, parts, etag, failure, hstage, hid, hparts, rfl⟩)))
    · cases h
  | abort error =>
    simp only [step] at h
    split at h
    · rename_i original upload_id hstage hid
      exact .inr (.inr (.inr (.inr ⟨upload_id, original, error, rfl, hstage, hid, h⟩)))
    · cases h

theorem step_holds (h : Holds req s3 run) (ha : AbortSucceeds run a)
    (hs : step req run a = some run') : Holds req s3 run' := by
  rcases step_cases hs with ⟨etag, failure, hstage, hsmall, rfl⟩ | ⟨failure, hstage, hlarge, rfl⟩ |
    ⟨upload_id, i, body, etag, failure, hid, htask, hbody, rfl⟩ |
    ⟨upload_id, parts, etag, failure, hstage, hid, hparts, rfl⟩ |
    ⟨upload_id, original, error, rfl, hstage, hid, habort⟩
  · exact put_holds h hstage hsmall
  · exact create_holds h hstage hlarge
  · exact part_holds h hid htask hbody
  · exact complete_holds h hstage hid hparts
  · cases ha
    exact abort_holds h hstage hid habort

theorem run_holds (h : Run (step req) AbortSucceeds (start s3) run) : Holds req s3 run :=
  h.invariant (Holds req s3) rfl (fun _ _ _ hi ha hs => step_holds hi ha hs)

/-- The parts that are sent, and the parts that completion lists, are those of the object. -/
structure Numbered (data : Bytes) (calls : List (Call × Option String)) : Prop where
  sent : ∀ upload_id n body error, (Call.upload_part upload_id n body, error) ∈ calls →
    ∃ i, n = i + 1 ∧ (_iter_chunks data)[i]? = some body
  listed : ∀ upload_id parts error, (Call.complete_multipart_upload upload_id parts, error) ∈ calls →
    parts.map (·.1) = List.range' 1 (_iter_chunks data).length

theorem Numbered.snoc (h : Numbered data calls)
    (hsent : ∀ upload_id n body, call = Call.upload_part upload_id n body →
      ∃ i, n = i + 1 ∧ (_iter_chunks data)[i]? = some body)
    (hlisted : ∀ upload_id parts, call = Call.complete_multipart_upload upload_id parts →
      parts.map (·.1) = List.range' 1 (_iter_chunks data).length) :
    Numbered data (calls ++ [(call, error)]) := by
  refine ⟨fun upload_id n body e hmem => ?_, fun upload_id parts e hmem => ?_⟩
  all_goals rcases List.mem_append.mp hmem with hold | hnew
  · exact h.sent upload_id n body e hold
  · exact hsent upload_id n body (congrArg Prod.fst (List.mem_singleton.mp hnew)).symm
  · exact h.listed upload_id parts e hold
  · exact hlisted upload_id parts (congrArg Prod.fst (List.mem_singleton.mp hnew)).symm

theorem step_numbered (hh : Holds req s3 run) (h : Numbered req.data run.calls)
    (hs : step req run a = some run') : Numbered req.data run'.calls := by
  rcases step_cases hs with ⟨etag, failure, hstage, hsmall, rfl⟩ | ⟨failure, hstage, hlarge, rfl⟩ |
    ⟨upload_id, i, body, etag, failure, hid, htask, hbody, rfl⟩ |
    ⟨upload_id, parts, etag, failure, hstage, hid, hparts, rfl⟩ |
    ⟨upload_id, original, error, rfl, hstage, hid, habort⟩
  · exact h.snoc (fun _ _ _ hc => by cases hc) (fun _ _ hc => by cases hc)
  · exact h.snoc (fun _ _ _ hc => by cases hc) (fun _ _ hc => by cases hc)
  · refine h.snoc (fun _ _ _ hc => ?_) (fun _ _ hc => by cases hc)
    cases hc
    exact ⟨i, rfl, hbody⟩
  · refine h.snoc (fun _ _ _ hc => by cases hc) (fun _ _ hc => ?_)
    cases hc
    obtain ⟨_, own, hup⟩ := hh.at_uploading hstage
    rw [parts_sorted hparts, gathered_numbers hparts, hup.tasks]
  · cases error with
    | some e =>
      cases habort
      exact h.snoc (fun _ _ _ hc => by cases hc) (fun _ _ hc => by cases hc)
    | none =>
      obtain ⟨aborted, _, rfl⟩ := Option.map_eq_some_iff.mp habort
      exact h.snoc (fun _ _ _ hc => by cases hc) (fun _ _ hc => by cases hc)

theorem run_numbered (h : Run (step req) AbortSucceeds (start s3) run) :
    Numbered req.data run.calls := by
  refine h.invariant_given (fun run => Numbered req.data run.calls) (Holds req s3)
    (fun _ hrun => run_holds hrun) ?_ (fun _ _ _ hh hi _ hs => step_numbered hh hi hs)
  refine ⟨fun _ _ _ _ hmem => ?_, fun _ _ _ hmem => ?_⟩
  all_goals cases hmem

/-- Once a call of a large upload has failed, what is left to do is the abort. -/
theorem failed_raises (h : Holds req s3 run) (hlarge : req.large = true)
    (he : firstError run.calls = some e) :
    (run.stage = .raised e ∧ Aborted s3 run) ∨
    (run.stage = .aborting e ∧ ∃ upload_id, run.upload_id = some upload_id ∧
      (run.s3.uploads upload_id ≠ none →
        ∃ run', step req run (.abort none) = some run' ∧ run'.stage = .raised e)) := by
  unfold Holds at h
  cases hstage : run.stage with
  | starting =>
    simp only [hstage] at h
    rw [h] at he
    cases he
  | uploading =>
    simp only [hstage] at h
    obtain ⟨_, _, hup⟩ := h
    cases hup.clean.symm.trans he
  | aborting original =>
    simp only [hstage] at h
    obtain ⟨_, horiginal, upload_id, hid, _⟩ := h
    cases horiginal.symm.trans he
    refine .inr ⟨rfl, upload_id, hid, fun hleft => ?_⟩
    obtain ⟨upload, hu⟩ := Option.ne_none_iff_exists'.mp hleft
    simp [step, hstage, hid, abort, Store.abort, hu]
  | returned result =>
    simp only [hstage] at h
    cases h.clean.symm.trans he
  | raised original =>
    simp only [hstage] at h
    obtain ⟨horiginal, haborted⟩ := h
    cases horiginal.symm.trans he
    exact .inl ⟨rfl, haborted hlarge⟩

/-- An upload that returns has put the object, in parts that are all of it, and one that fails
leaves the object that was there. -/
theorem upload_whole (h : Run (step req) AbortSucceeds (start s3) run) :
    (∀ result, run.stage = .returned result → Returned req s3 run result) ∧
    Numbered req.data run.calls ∧
    ((_iter_chunks req.data).flatten = req.data ∧
      ∀ i body, (_iter_chunks req.data)[i]? = some body → body ≠ [] ∧ body.length ≤ CHUNK_SIZE ∧
        (i + 1 < (_iter_chunks req.data).length → body.length = CHUNK_SIZE)) ∧
    ∀ e, req.large = true → firstError run.calls = some e →
      (run.stage = .raised e ∧ Aborted s3 run) ∨
      (run.stage = .aborting e ∧ ∃ upload_id, run.upload_id = some upload_id ∧
        (run.s3.uploads upload_id ≠ none →
          ∃ run', step req run (.abort none) = some run' ∧ run'.stage = .raised e)) := by
  have hholds := run_holds h
  refine ⟨fun result hstage => ?_, run_numbered h, iter_chunks_whole req.data, ?_⟩
  · unfold Holds at hholds
    rw [hstage] at hholds
    exact hholds
  · intro e hlarge he
    exact failed_raises hholds hlarge he

/-- A call that does not fail. -/
def Succeeds (_ : UploadRun) (a : Action) : Prop :=
  (∃ etag, a = .put etag none) ∨ a = .create none ∨ (∃ i etag, a = .part i etag none) ∨
    ∃ etag, a = .complete etag none

/-- The stages of a run whose calls succeed. -/
def GoesOn (req : Request) (s3 : S3) (run : UploadRun) : Prop :=
  Holds req s3 run ∧ match run.stage with
    | .starting | .returned _ => True
    | .uploading => ∀ (i : Nat) e, run.tasks[i]? ≠ some (.failed e)
    | .aborting _ | .raised _ => False

/-- The calls that are left, where a large upload has no parts yet. -/
def left (req : Request) (run : UploadRun) : Nat :=
  match run.stage with
  | .starting => (_iter_chunks req.data).length + 2
  | .uploading => run.tasks.countP (· = PartTask.pending) + 1
  | _ => 0

theorem part_goes_on (h : Uploading req s3 run upload_id) (hstage : run.stage = .uploading)
    (hlarge : req.large = true) (hnone : ∀ (i : Nat) e, run.tasks[i]? ≠ some (.failed e))
    (htask : run.tasks[i]? = some .pending) (etag : Text) :
    ∃ run', step req run (.part i etag none) = some run' ∧ GoesOn req s3 run' ∧
      left req run' < left req run := by
  obtain ⟨hlt, hget⟩ := List.getElem?_eq_some_iff.mp htask
  obtain ⟨body, hbody⟩ : ∃ body, (_iter_chunks req.data)[i]? = some body :=
    ⟨_, List.getElem?_eq_getElem (h.tasks ▸ hlt)⟩
  obtain ⟨upload, hu, _⟩ := h.stored
  have hstay : (part run upload_id i body etag none).stage = .uploading := by
    simp [part, Store.uploadPart, hu, hstage]
  have htasks : (part run upload_id i body etag none).tasks =
      run.tasks.set i (.uploaded etag) := by
    simp [part, Store.uploadPart, hu]
  have hstep : step req run (.part i etag none) = some (part run upload_id i body etag none) := by
    simp only [step, h.id, htask, hbody]
  refine ⟨_, hstep, ⟨?_, ?_⟩, ?_⟩
  · unfold Holds
    rw [hstay]
    exact ⟨hlarge, upload_id, part_uploading h htask hbody⟩
  · rw [hstay]
    intro j e hj
    rw [htasks] at hj
    by_cases hij : i = j
    · subst hij
      rw [List.getElem?_set_self hlt] at hj
      cases hj
    · rw [List.getElem?_set_ne hij] at hj
      exact hnone j e hj
  · have hpos : 0 < run.tasks.countP (· = PartTask.pending) :=
      List.countP_pos_iff.mpr ⟨_, List.mem_of_getElem? htask, by simp⟩
    simp only [left, hstay, hstage, htasks]
    rw [List.countP_set hlt, hget]
    simp only [decide_true, if_true, reduceCtorEq, decide_false, Bool.false_eq_true, if_false]
    omega

theorem goes_on (h : GoesOn req s3 run) (hlive : ¬∃ result, run.stage = .returned result)
    (etag : Text) :
    ∃ a run', Succeeds run a ∧ step req run a = some run' ∧ GoesOn req s3 run' ∧
      left req run' < left req run := by
  obtain ⟨hholds, hgo⟩ := h
  cases hstage : run.stage with
  | starting =>
    cases hlarge : req.large with
    | false =>
      refine ⟨.put etag none, _, .inl ⟨etag, rfl⟩, if_pos ⟨hstage, hlarge⟩,
        ⟨put_holds hholds hstage hlarge, trivial⟩, ?_⟩
      simp [left, put, hstage]
    | true =>
      refine ⟨.create none, _, .inr (.inl rfl), if_pos ⟨hstage, hlarge⟩,
        ⟨create_holds hholds hstage hlarge, fun i e hi => ?_⟩, ?_⟩
      · obtain ⟨_, _, he⟩ := List.mem_map.mp (List.mem_of_getElem? hi)
        cases he
      · have hcount := List.countP_le_length (p := fun task : PartTask => decide (task = .pending))
          (l := (_iter_chunks req.data).map (fun _ => PartTask.pending))
        rw [List.length_map] at hcount
        simp only [left, create, hstage, Option.isNone_none, if_true]
        omega
  | uploading =>
    obtain ⟨hlarge, upload_id, hup⟩ := hholds.at_uploading hstage
    rw [hstage] at hgo
    by_cases hall : ∃ i : Nat, run.tasks[i]? = some .pending
    · obtain ⟨i, htask⟩ := hall
      obtain ⟨run', hstep, hgoes, hlt⟩ := part_goes_on hup hstage hlarge hgo htask etag
      exact ⟨_, run', .inr (.inr (.inl ⟨i, etag, rfl⟩)), hstep, hgoes, hlt⟩
    · have huploaded : ∀ (i : Nat) task, run.tasks[i]? = some task → ∃ tag, task = .uploaded tag := by
        intro i task hi
        cases task with
        | pending => exact absurd ⟨i, hi⟩ hall
        | uploaded tag => exact ⟨tag, rfl⟩
        | failed e => exact absurd hi (hgo i e)
      obtain ⟨parts, hparts⟩ := gathered_some huploaded
      have hend : Holds req s3 (complete req run upload_id parts etag none) :=
        complete_holds hholds hstage hup.id hparts
      obtain ⟨completed, hcompleted, _⟩ := completes hup hlarge hparts
      have hreturned : (complete req run upload_id parts etag none).stage = .returned (req.result etag) := by
        simp [complete, hcompleted]
      refine ⟨.complete etag none, _, .inr (.inr (.inr ⟨etag, rfl⟩)),
        by simp only [step, hstage, hup.id, hparts], ⟨hend, ?_⟩, ?_⟩
      · rw [hreturned]
        trivial
      · simp only [left, hreturned, hstage]
        omega
  | aborting e =>
    rw [hstage] at hgo
    exact hgo.elim
  | returned result => exact absurd ⟨result, hstage⟩ hlive
  | raised e =>
    rw [hstage] at hgo
    exact hgo.elim

/-- Whatever the object and the store, an upload whose calls succeed returns. -/
theorem upload_returns (req : Request) (s3 : S3) : ∃ run,
    Run (step req) Succeeds (start s3) run ∧ ∃ result, run.stage = .returned result := by
  refine Run.progress (GoesOn req s3) _ (left req) ?_ ⟨rfl, trivial⟩
  intro run hgo hlive
  exact goes_on hgo hlive []

/-- An object at the threshold. -/
def zeros : Request := ⟨List.replicate MULTIPART_THRESHOLD 0, "files".toList, "zeros.bin".toList⟩

theorem zeros_whole : zeros.large = true ∧ ∃ run result, run.stage = .returned result ∧
    Returned zeros ⟨fun _ => none, fun _ => none, 0⟩ run result := by
  obtain ⟨run, hrun, result, hstage⟩ := upload_returns zeros ⟨fun _ => none, fun _ => none, 0⟩
  have haborts : ∀ run a, Succeeds run a → AbortSucceeds run a := by
    intro run a ha
    cases a with
    | abort error => simp [Succeeds] at ha
    | _ => trivial
  refine ⟨by simp [Request.large, zeros], run, result, hstage, ?_⟩
  exact (upload_whole (hrun.mono haborts)).1 result hstage

end FileDelivery.Proofs.WholeUpload

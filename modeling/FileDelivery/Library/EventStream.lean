import Mathlib.Data.List.Basic

namespace FileDelivery.Library.EventStream

/-- A message event as a client dispatches it. -/
structure Message where
  type : List Char
  data : List Char
  lastEventId : List Char
  deriving DecidableEq, Repr

/-- A client in the middle of an event stream. -/
structure Client where
  /-- What it has of the line that is coming in. -/
  line : List Char
  /-- A line feed now belongs to the line break before it. -/
  afterReturn : Bool
  eventType : List Char
  data : List Char
  lastEventId : List Char
  messages : List Message
  deriving DecidableEq, Repr

def Client.initial : Client := ⟨[], false, [], [], [], []⟩

/-- The end of an event; without data there is none. -/
def Client.dispatch (c : Client) : Client :=
  if c.data = [] then { c with eventType := [] }
  else
    { c with
      eventType := []
      data := []
      messages := c.messages ++
        [⟨if c.eventType = [] then "message".toList else c.eventType, c.data.dropLast, c.lastEventId⟩] }

def Client.field (c : Client) (name value : List Char) : Client :=
  if name = "event".toList then { c with eventType := value }
  else if name = "data".toList then { c with data := c.data ++ value ++ ['\n'] }
  else if name = "id".toList ∧ Char.ofNat 0 ∉ value then { c with lastEventId := value }
  else c

/-- One space after the colon is no part of the value. -/
def valueOf : List Char → List Char
  | ' ' :: value => value
  | value => value

/-- A line is a field, a comment or the end of an event. -/
def Client.take (c : Client) (line : List Char) : Client :=
  match line with
  | [] => c.dispatch
  | ':' :: _ => c
  | _ => c.field (line.takeWhile (· ≠ ':')) (valueOf ((line.dropWhile (· ≠ ':')).drop 1))

/-- Lines end in a carriage return, a line feed or both. -/
def Client.feed (c : Client) (x : Char) : Client :=
  if x = '\n' ∧ c.afterReturn = true then { c with afterReturn := false }
  else if x = '\n' ∨ x = '\r' then
    { c.take c.line with line := [], afterReturn := x = '\r' }
  else { c with line := c.line ++ [x], afterReturn := false }

def Client.read (c : Client) (text : List Char) : Client := text.foldl Client.feed c

/-- The messages of a stream, as far as it has come in. -/
def messages (text : List Char) : List Message := (Client.initial.read text).messages

theorem read_append (c : Client) (text more : List Char) :
    c.read (text ++ more) = (c.read text).read more := List.foldl_append

theorem field_messages (c : Client) (name value : List Char) : (c.field name value).messages = c.messages := by
  unfold Client.field
  split
  · rfl
  · split
    · rfl
    · split <;> rfl

theorem take_messages (c : Client) (line : List Char) : c.messages <+: (c.take line).messages := by
  unfold Client.take
  split
  · unfold Client.dispatch
    split
    · exact List.prefix_rfl
    · exact List.prefix_append _ _
  · exact List.prefix_rfl
  · simp only [field_messages, List.prefix_rfl]

theorem feed_messages (c : Client) (x : Char) : c.messages <+: (c.feed x).messages := by
  unfold Client.feed
  split
  · exact List.prefix_rfl
  · split
    · exact take_messages c c.line
    · exact List.prefix_rfl

theorem read_messages (c : Client) (text : List Char) : c.messages <+: (c.read text).messages := by
  induction text generalizing c with
  | nil => exact List.prefix_rfl
  | cons x text ih => exact (feed_messages c x).trans (ih (c.feed x))

/-- What comes in later takes back no message. -/
theorem messages_mono (h : text <+: whole) : messages text <+: messages whole := by
  obtain ⟨more, rfl⟩ := h
  unfold messages
  rw [read_append]
  exact read_messages _ more

/-- Without a line break in it. -/
def Unbroken (text : List Char) : Prop := ∀ x ∈ text, x ≠ '\n' ∧ x ≠ '\r'

theorem unbroken_nil : Unbroken [] := fun _ hx => nomatch hx

/-- A client between two events. -/
def idle (lastEventId : List Char) (messages : List Message) : Client :=
  ⟨[], false, [], [], lastEventId, messages⟩

theorem read_unbroken (c : Client) (hc : c.afterReturn = false) (h : Unbroken text) :
    c.read text = { c with line := c.line ++ text } := by
  induction text generalizing c with
  | nil => simp [Client.read]
  | cons x text ih =>
    obtain ⟨hx, hrest⟩ := List.forall_mem_cons.mp h
    have hfeed : c.feed x = { c with line := c.line ++ [x] } := by
      simp [Client.feed, hx, hc]
    rw [show x :: text = [x] ++ text from rfl, read_append]
    change (c.feed x).read text = _
    rw [hfeed, ih { c with line := c.line ++ [x] } hc hrest, List.append_assoc]

theorem read_line (c : Client) (hc : c.afterReturn = false) (h : Unbroken text) :
    c.read (text ++ ['\n']) =
      { Client.take { c with line := c.line ++ text } (c.line ++ text) with
        line := [], afterReturn := false } := by
  rw [read_append, read_unbroken c hc h]
  simp [Client.read, Client.feed, hc]

/-- An event of one line of data. -/
def event (data : List Char) : List Char := ['d', 'a', 't', 'a', ':', ' '] ++ data ++ ['\n', '\n']

def comment (text : List Char) : List Char := [':', ' '] ++ text ++ ['\n', '\n']

theorem Unbroken.append (h : Unbroken text) (h' : Unbroken more) : Unbroken (text ++ more) := by
  intro x hx
  rcases List.mem_append.mp hx with hx | hx
  · exact h x hx
  · exact h' x hx

theorem take_data (c : Client) (data : List Char) :
    c.take (['d', 'a', 't', 'a', ':', ' '] ++ data) = { c with data := c.data ++ data ++ ['\n'] } := by
  simp [Client.take, Client.field, valueOf]

theorem read_event (lastEventId : List Char) (ms : List Message) (h : Unbroken data) :
    (idle lastEventId ms).read (event data) =
      idle lastEventId (ms ++ [⟨"message".toList, data, lastEventId⟩]) := by
  have hsplit : event data = (['d', 'a', 't', 'a', ':', ' '] ++ data ++ ['\n']) ++ ([] ++ ['\n']) := by
    simp [event]
  have hline : Unbroken (['d', 'a', 't', 'a', ':', ' '] ++ data) := .append (by simp [Unbroken]) h
  rw [hsplit, read_append, read_line _ rfl hline, idle, List.nil_append, take_data,
    read_line _ rfl unbroken_nil]
  have hdata : data ++ ['\n'] ≠ [] := by simp
  simp only [Client.take, Client.dispatch, List.nil_append, if_neg hdata, if_true, List.dropLast_concat,
    idle]

theorem read_comment (lastEventId : List Char) (ms : List Message) (h : Unbroken text) :
    (idle lastEventId ms).read (comment text) = idle lastEventId ms := by
  have hsplit : comment text = ([':', ' '] ++ text ++ ['\n']) ++ ([] ++ ['\n']) := by
    simp [comment]
  have hline : Unbroken ([':', ' '] ++ text) := .append (by simp [Unbroken]) h
  rw [hsplit, read_append, read_line _ rfl hline, idle, List.nil_append,
    read_line _ rfl unbroken_nil]
  simp only [Client.take, List.nil_append, List.cons_append, Client.dispatch, if_true]

end FileDelivery.Library.EventStream

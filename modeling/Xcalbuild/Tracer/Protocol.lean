/-
**The messages of the tracer on the socket.**

A traced process writes a `bear_message` to a socket, and the tracer reads it. Numbers are four
bytes, a string is its length and its characters, and an array of strings is its length and its
strings. Both sides loop over partial transfers.

* `sends_bearWriteMessage`: the writer adds the bytes `wire` of the message, however its writes are
  cut up;
* `receives_bearReadMessage`: however its reads are cut up, the reader gets the message from these
  bytes and leaves what is after them, and from a strict prefix of them it gets nothing;
* `bearReadMessage_diverges`: it loops forever when the sender closes after a strict prefix, as the
  loop of `socket_read` does not take the zero that `read` returns at the end for an end;
* `readsRight_iff`: so it does right exactly when the whole message is sent.
-/
import Xcalbuild.Library.Bytes
import Xcalbuild.Library.Loop
import Xcalbuild.Library.Text
import Xcalbuild.Library.Transfer

namespace Xcalbuild.Tracer

open Library

/-! ### Strings and messages -/

/-- A C string, by the characters before the NUL that ends it. -/
def CString : Type := { chars : Bytes // (0 : UInt8) ∉ chars }

namespace CString

def chars (s : CString) : Bytes := s.1

/-- `strlen` -/
def strlen (s : CString) : Nat := s.chars.length

def empty : CString := ⟨[], List.not_mem_nil⟩

/-- What a C function sees of a buffer with a NUL after it. -/
def ofBuffer (buffer : Bytes) : CString :=
  ⟨buffer.takeWhile (· ≠ 0), fun member => by simpa using List.mem_takeWhile_imp member⟩

theorem ofBuffer_chars (s : CString) : ofBuffer s.chars = s := by
  refine Subtype.ext (List.takeWhile_eq_self_iff.mpr fun byte member => ?_)
  exact decide_eq_true fun zero => s.2 (zero ▸ member)

end CString

/-- `struct bear_message`. The pointer to the content of the response file may be null. -/
structure BearMessage where
  pid : Int32
  ppid : Int32
  /-- `fun`, the function that was called. -/
  function : CString
  cwd : CString
  respFile : Option CString
  cmd : List CString

namespace BearMessage

/-- The lengths are below the greatest value of `uint32_t`. -/
structure Fits (e : BearMessage) : Prop where
  function : e.function.strlen < 2 ^ 32 - 1
  cwd : e.cwd.strlen < 2 ^ 32 - 1
  respFile : ∀ s ∈ e.respFile, s.strlen < 2 ^ 32 - 1
  cmd : ∀ s ∈ e.cmd, s.strlen < 2 ^ 32 - 1
  count : e.cmd.length < 2 ^ 32 - 1

/-- The message with the empty string for a null response file. -/
def received (e : BearMessage) : BearMessage :=
  { e with respFile := some (e.respFile.getD .empty) }

end BearMessage

/-! ### The socket -/

/-- What becomes of the calls of `read` or `write` on a socket: the number of bytes a call transfers
at most, or none if it fails. -/
abbrev Kernel := Nat → Option Nat

/-- A kernel with which no call fails, for each way to cut up the transfers. -/
def fragmenting (pieces : Nat → Nat) : Kernel := fun call => some (pieces call)

/-- The receiving end: the bytes that are still to come before the sender closes. -/
structure Socket where
  stream : Bytes
  calls : Nat

/-- `read`. It transfers something unless the end of the stream is reached. -/
def Kernel.read (kernel : Kernel) (nbyte : Nat) (socket : Socket) : Option (Bytes × Socket) :=
  (kernel socket.calls).map fun limit =>
    let count := min nbyte (max 1 limit)
    (socket.stream.take count, ⟨socket.stream.drop count, socket.calls + 1⟩)

/-- The sending end: the bytes that were written. -/
structure Outlet where
  written : Bytes
  calls : Nat

/-- `write`. -/
def Kernel.write (kernel : Kernel) (buf : Bytes) (outlet : Outlet) : Option (Nat × Outlet) :=
  (kernel outlet.calls).map fun limit =>
    let count := min buf.length (max 1 limit)
    (count, ⟨outlet.written ++ buf.take count, outlet.calls + 1⟩)

/-! ### Writing -/

/-- The variables of the loop in `socket_write`. -/
structure WriteState where
  sum : Nat
  outlet : Outlet

/-- The loop in `socket_write`. An error leaves it. -/
def writeLoop (kernel : Kernel) (buf : Bytes) : Loop WriteState Empty where
  done state := decide (state.sum = buf.length)
  body state :=
    match kernel.write (buf.drop state.sum) state.outlet with
    | none => .leave state
    | some (cur, outlet) => .next ⟨state.sum + cur, outlet⟩

/-- `socket_write`, whose result no caller looks at. There is no outlet if the fuel is used up. -/
def socketWrite (kernel : Kernel) (buf : Bytes) (fuel : Nat) (outlet : Outlet) : Option Outlet :=
  match (writeLoop kernel buf).run fuel ⟨0, outlet⟩ with
  | .finished state => some state.outlet
  | .broke state => some state.outlet
  | .fault error => nomatch error
  | .exhausted => none

/-- The four bytes of a number in memory. -/
def memory (word : UInt32) : Bytes := littleEndian 4 word.toNat

def writePid (kernel : Kernel) (pid : Int32) : Nat → Outlet → Option Outlet :=
  socketWrite kernel (memory pid.toUInt32)

def writeString (kernel : Kernel) (message : Option CString) (fuel : Nat) (outlet : Outlet) :
    Option Outlet :=
  let length : UInt32 := match message with
    | some message => UInt32.ofNat message.strlen
    | none => 0
  (socketWrite kernel (memory length) fuel outlet).bind fun outlet =>
    match message with
    | some message =>
        if 0 < length then socketWrite kernel (message.chars.take length.toNat) fuel outlet
        else some outlet
    | none => some outlet

def writeStringArray (kernel : Kernel) (message : List CString) (fuel : Nat) (outlet : Outlet) :
    Option Outlet :=
  let length := UInt32.ofNat message.length
  (socketWrite kernel (memory length) fuel outlet).bind fun outlet =>
    sendList (fun s => writeString kernel (some s)) fuel (message.take length.toNat) outlet

/-- `bear_write_message` -/
def bearWriteMessage (kernel : Kernel) (e : BearMessage) (fuel : Nat) (outlet : Outlet) :
    Option Outlet :=
  (writePid kernel e.pid fuel outlet).bind fun outlet =>
    (writePid kernel e.ppid fuel outlet).bind fun outlet =>
      (writeString kernel (some e.function) fuel outlet).bind fun outlet =>
        (writeString kernel (some e.cwd) fuel outlet).bind fun outlet =>
          (writeString kernel e.respFile fuel outlet).bind fun outlet =>
            writeStringArray kernel e.cmd fuel outlet

/-! ### Reading -/

/-- How the reader stops without a message: it exits with an error message, it writes past the end
of a block, or (when the fuel is used up) it does not stop. -/
inductive Stop where
  | exited (text : Str)
  | overrun
  | diverged
  deriving DecidableEq

/-- The variables of the loop in `socket_read`. -/
structure ReadState where
  sum : Nat
  buf : Bytes
  socket : Socket

/-- The loop in `socket_read`. An error leaves it. -/
def readLoop (kernel : Kernel) (nbyte : Nat) : Loop ReadState Socket where
  done state := decide (state.sum = nbyte)
  body state :=
    match kernel.read (nbyte - state.sum) state.socket with
    | none => .fault state.socket
    | some (cur, socket) => .next ⟨state.sum + cur.length, state.buf ++ cur, socket⟩

/-- `socket_read`: the bytes that are read, or nothing after an error. -/
def socketRead (kernel : Kernel) (nbyte fuel : Nat) : StateT Socket (Except Stop) (Option Bytes) :=
  fun socket =>
    match (readLoop kernel nbyte).run fuel ⟨0, [], socket⟩ with
    | .finished state => .ok (some state.buf, state.socket)
    | .broke state => .ok (some state.buf, state.socket)
    | .fault socket => .ok (none, socket)
    | .exhausted => .error .diverged

/-- `perror` and `exit(EXIT_FAILURE)` after an error. -/
def orExit (text : Str) : Option Bytes → StateT Socket (Except Stop) Bytes
  | some bytes => pure bytes
  | none => throw (.exited text)

def readPid (kernel : Kernel) (fuel : Nat) : StateT Socket (Except Stop) Int32 := do
  let bytes ← orExit "xcalbuild: read pid".toList (← socketRead kernel 4 fuel)
  return (UInt32.ofNat (ofLittleEndian bytes)).toInt32

/-- The length before a string or an array. -/
def readLength (kernel : Kernel) (text : Str) (fuel : Nat) :
    StateT Socket (Except Stop) UInt32 := do
  let bytes ← orExit text (← socketRead kernel 4 fuel)
  return UInt32.ofNat (ofLittleEndian bytes)

def readString (kernel : Kernel) (fuel : Nat) : StateT Socket (Except Stop) CString := do
  let length ← readLength kernel "xcalbuild: read string length".toList fuel
  -- the size of the block is a sum of `uint32_t`
  if length + 1 = 0 then throw .overrun
  else if 0 < length then
    let bytes ← orExit "xcalbuild: read string value".toList
      (← socketRead kernel length.toNat fuel)
    return .ofBuffer bytes
  else return .ofBuffer []

def readStringArray (kernel : Kernel) (fuel : Nat) :
    StateT Socket (Except Stop) (List CString) := do
  let length ← readLength kernel "xcalbuild: read string array length".toList fuel
  if length + 1 = 0 then throw .overrun
  else receiveList (readString kernel) fuel length.toNat

/-- `bear_read_message` -/
def bearReadMessage (kernel : Kernel) (fuel : Nat) : StateT Socket (Except Stop) BearMessage := do
  let pid ← readPid kernel fuel
  let ppid ← readPid kernel fuel
  let function ← readString kernel fuel
  let cwd ← readString kernel fuel
  let respFile ← readString kernel fuel
  let cmd ← readStringArray kernel fuel
  return { pid, ppid, function, cwd, respFile := some respFile, cmd }

/-! ### The bytes of a message -/

def wireString (s : CString) : Bytes := memory (UInt32.ofNat s.strlen) ++ s.chars

def wireStrings (message : List CString) : Bytes :=
  memory (UInt32.ofNat message.length) ++ message.flatMap wireString

/-- The bytes that a message is sent as. -/
def wire (e : BearMessage) : Bytes :=
  memory e.pid.toUInt32 ++ (memory e.ppid.toUInt32 ++ (wireString e.function ++
    (wireString e.cwd ++ (wireString (e.respFile.getD .empty) ++ wireStrings e.cmd))))

/-! ### What the writer does -/

section Write

variable (pieces : Nat → Nat)

/-- The bytes before the position are written. -/
structure Wrote (buf written : Bytes) (state : WriteState) : Prop where
  inside : state.sum ≤ buf.length
  written : state.outlet.written = written ++ buf.take state.sum

theorem writeLoop_pass {buf written : Bytes} {state : WriteState} (wrote : Wrote buf written state)
    (notDone : (writeLoop (fragmenting pieces) buf).done state = false) :
    ∃ state', (writeLoop (fragmenting pieces) buf).body state = .next state' ∧
      Wrote buf written state' ∧ state.sum < state'.sum := by
  have inside := wrote.inside
  have before : state.sum ≠ buf.length := of_decide_eq_false notDone
  refine ⟨_, rfl, ⟨?_, ?_⟩, ?_⟩
  · show state.sum + min (buf.drop state.sum).length (max 1 _) ≤ buf.length
    rw [List.length_drop]
    omega
  · show state.outlet.written ++ (buf.drop state.sum).take _ = written ++ buf.take (state.sum + _)
    rw [wrote.written, List.append_assoc, ← List.take_add]
  · show state.sum < state.sum + min (buf.drop state.sum).length (max 1 _)
    rw [List.length_drop]
    omega

/-- **All the bytes are written**, in some number of pieces. -/
theorem sends_socketWrite (buf : Bytes) :
    Sends Outlet.written (socketWrite (fragmenting pieces) buf) buf := by
  intro fuel outlet enough
  have invariant : ∀ state, (writeLoop (fragmenting pieces) buf).Heads ⟨0, outlet⟩ state →
      Wrote buf outlet.written state := by
    intro state heads
    refine Loop.heads_invariant ⟨Nat.zero_le _, (List.append_nil _).symm⟩ ?_ heads
    intro state state' wrote notDone step
    obtain ⟨next, step', wrote', -⟩ := writeLoop_pass pieces wrote notDone
    rw [step] at step'
    cases step'
    exact wrote'
  have progress : ∀ state, (writeLoop (fragmenting pieces) buf).Heads ⟨0, outlet⟩ state →
      (writeLoop (fragmenting pieces) buf).done state = false →
        (∃ state', (writeLoop (fragmenting pieces) buf).body state = .next state' ∧
          buf.length - state'.sum < buf.length - state.sum) ∨
            ∃ state', (writeLoop (fragmenting pieces) buf).body state = .leave state' := by
    intro state heads notDone
    obtain ⟨next, step, wrote, further⟩ := writeLoop_pass pieces (invariant state heads) notDone
    have inside := wrote.inside
    exact Or.inl ⟨next, step, by omega⟩
  unfold socketWrite
  rcases Loop.run_of_progress _ fuel _ progress enough with
    ⟨state, heads, done, run⟩ | ⟨state, final, heads, notDone, step, run⟩
  · rw [run]
    have all : state.sum = buf.length := of_decide_eq_true done
    refine ⟨state.outlet, rfl, ?_⟩
    rw [(invariant state heads).written, all, List.take_length]
  · obtain ⟨next, step', -⟩ := writeLoop_pass pieces (invariant state heads) notDone
    rw [step] at step'
    cases step'

theorem sends_writePid (pid : Int32) :
    Sends Outlet.written (writePid (fragmenting pieces) pid) (memory pid.toUInt32) :=
  sends_socketWrite pieces _

theorem toNat_length {n : Nat} (fits : n < 2 ^ 32 - 1) : (UInt32.ofNat n).toNat = n :=
  UInt32.toNat_ofNat_of_lt' (Nat.lt_of_lt_of_le fits (Nat.sub_le _ _))

/-- A string whose length is zero. -/
theorem chars_eq_nil {s : CString} (fits : s.strlen < 2 ^ 32 - 1)
    (zero : ¬ 0 < UInt32.ofNat s.strlen) : s.chars = [] := by
  refine List.length_eq_zero_iff.mp (Nat.eq_zero_of_not_pos fun nonempty => zero ?_)
  rw [UInt32.lt_iff_toNat_lt, toNat_length fits]
  exact nonempty

theorem sends_writeString {s : CString} (fits : s.strlen < 2 ^ 32 - 1) :
    Sends Outlet.written (writeString (fragmenting pieces) (some s)) (wireString s) := by
  have chars : Sends Outlet.written (fun fuel outlet =>
      if 0 < UInt32.ofNat s.strlen then
        socketWrite (fragmenting pieces) (s.chars.take (UInt32.ofNat s.strlen).toNat) fuel outlet
      else some outlet) s.chars := by
    split_ifs with positive
    · rw [toNat_length fits, CString.strlen, List.take_length]
      exact sends_socketWrite pieces s.chars
    · have absent : s.chars = [] := by
        refine List.length_eq_zero_iff.mp (Nat.eq_zero_of_not_pos fun nonempty => positive ?_)
        rw [UInt32.lt_iff_toNat_lt, toNat_length fits]
        exact nonempty
      rw [absent]
      exact sends_nothing
  exact (sends_socketWrite pieces _).seq chars

/-- A null pointer is written as the empty string. -/
theorem sends_writeString_null :
    Sends Outlet.written (writeString (fragmenting pieces) none) (wireString .empty) :=
  (sends_socketWrite pieces _).seq sends_nothing

theorem sends_writeStringArray {message : List CString} (count : message.length < 2 ^ 32 - 1)
    (fits : ∀ s ∈ message, s.strlen < 2 ^ 32 - 1) :
    Sends Outlet.written (writeStringArray (fragmenting pieces) message) (wireStrings message) := by
  have strings := sends_list message fun s member =>
    @sends_writeString pieces s (fits s member)
  have all := (sends_socketWrite pieces (memory (UInt32.ofNat message.length))).seq strings
  have taken : message.take (UInt32.ofNat message.length).toNat = message := by
    rw [toNat_length count, List.take_length]
  show Sends Outlet.written (fun fuel outlet =>
    (socketWrite (fragmenting pieces) (memory (UInt32.ofNat message.length)) fuel outlet).bind
      (sendList _ fuel (message.take (UInt32.ofNat message.length).toNat))) _
  rw [taken]
  exact all

/-- **The writer adds the bytes of the message**, in some number of pieces. -/
theorem sends_bearWriteMessage {e : BearMessage} (fits : e.Fits) :
    Sends Outlet.written (bearWriteMessage (fragmenting pieces) e) (wire e) := by
  have respFile : Sends Outlet.written (writeString (fragmenting pieces) e.respFile)
      (wireString (e.respFile.getD .empty)) := by
    cases content : e.respFile with
    | none => exact sends_writeString_null pieces
    | some s => exact sends_writeString pieces (fits.respFile s content)
  exact (sends_writePid pieces e.pid).seq ((sends_writePid pieces e.ppid).seq
    ((sends_writeString pieces fits.function).seq ((sends_writeString pieces fits.cwd).seq
      (respFile.seq (sends_writeStringArray pieces fits.count fits.cmd)))))

end Write

/-! ### What the reader does -/

section Read

variable (pieces : Nat → Nat)

/-- What is read and what is to come is the stream. -/
structure DidRead (nbyte : Nat) (stream : Bytes) (state : ReadState) : Prop where
  inside : state.sum ≤ nbyte
  sum : state.sum = state.buf.length
  stream : state.buf ++ state.socket.stream = stream

theorem readLoop_pass {nbyte : Nat} {stream : Bytes} {state : ReadState}
    (did : DidRead nbyte stream state) :
    ∃ state', (readLoop (fragmenting pieces) nbyte).body state = .next state' ∧
      DidRead nbyte stream state' ∧
        state'.sum = state.sum + min (min (nbyte - state.sum)
          (max 1 (pieces state.socket.calls))) state.socket.stream.length := by
  have inside := did.inside
  refine ⟨_, rfl, ⟨?_, ?_, ?_⟩, ?_⟩
  · show state.sum + (state.socket.stream.take _).length ≤ nbyte
    rw [List.length_take]
    omega
  · show state.sum + (state.socket.stream.take _).length = (state.buf ++ _).length
    rw [List.length_append, did.sum]
  · show (state.buf ++ state.socket.stream.take _) ++ state.socket.stream.drop _ = stream
    rw [List.append_assoc, List.take_append_drop, did.stream]
  · show state.sum + (state.socket.stream.take _).length = _
    rw [List.length_take]

theorem didRead_of_heads {nbyte : Nat} {socket : Socket} {state : ReadState}
    (heads : (readLoop (fragmenting pieces) nbyte).Heads ⟨0, [], socket⟩ state) :
    DidRead nbyte socket.stream state := by
  refine Loop.heads_invariant ⟨Nat.zero_le _, rfl, rfl⟩ ?_ heads
  intro state state' did notDone step
  obtain ⟨next, step', did', -⟩ := readLoop_pass pieces did
  rw [step] at step'
  cases step'
  exact did'

/-- The loop ends when all is read, or it does not end. -/
theorem socketRead_cases (nbyte fuel : Nat) (socket : Socket) :
    (∃ state, DidRead nbyte socket.stream state ∧ state.sum = nbyte ∧
        socketRead (fragmenting pieces) nbyte fuel socket = .ok (some state.buf, state.socket)) ∨
      socketRead (fragmenting pieces) nbyte fuel socket = .error .diverged := by
  unfold socketRead
  rcases @Loop.run_cases _ _ (readLoop (fragmenting pieces) nbyte) fuel ⟨0, [], socket⟩ with
    ⟨state, heads, done, run⟩ | ⟨state, final, heads, step, run⟩ |
      ⟨state, error, heads, step, run⟩ | run
  · rw [run]
    exact Or.inl ⟨state, didRead_of_heads pieces heads, of_decide_eq_true done, rfl⟩
  · obtain ⟨next, step', -⟩ := readLoop_pass pieces (didRead_of_heads pieces heads)
    rw [step] at step'
    cases step'
  · obtain ⟨next, step', -⟩ := readLoop_pass pieces (didRead_of_heads pieces heads)
    rw [step] at step'
    cases step'
  · rw [run]
    exact Or.inr rfl

/-- With enough on the stream the loop ends. -/
theorem socketRead_ends {nbyte fuel : Nat} {socket : Socket} (there : nbyte ≤ socket.stream.length)
    (enough : nbyte < fuel) :
    ∃ state, DidRead nbyte socket.stream state ∧ state.sum = nbyte ∧
      socketRead (fragmenting pieces) nbyte fuel socket = .ok (some state.buf, state.socket) := by
  have progress : ∀ state, (readLoop (fragmenting pieces) nbyte).Heads ⟨0, [], socket⟩ state →
      (readLoop (fragmenting pieces) nbyte).done state = false →
        (∃ state', (readLoop (fragmenting pieces) nbyte).body state = .next state' ∧
          nbyte - state'.sum < nbyte - state.sum) ∨
            ∃ state', (readLoop (fragmenting pieces) nbyte).body state = .leave state' := by
    intro state heads notDone
    have did := didRead_of_heads pieces heads
    have before : state.sum ≠ nbyte := of_decide_eq_false notDone
    have inside := did.inside
    have lengths := congrArg List.length did.stream
    rw [List.length_append, ← did.sum] at lengths
    obtain ⟨next, step, -, sum⟩ := readLoop_pass pieces did
    exact Or.inl ⟨next, step, by omega⟩
  unfold socketRead
  rcases Loop.run_of_progress _ fuel _ progress enough with
    ⟨state, heads, done, run⟩ | ⟨state, final, heads, notDone, step, run⟩
  · rw [run]
    exact ⟨state, didRead_of_heads pieces heads, of_decide_eq_true done, rfl⟩
  · obtain ⟨next, step', -⟩ := readLoop_pass pieces (didRead_of_heads pieces heads)
    rw [step] at step'
    cases step'

/-- **The bytes are read as a whole**, in some number of pieces. -/
theorem receives_socketRead (bytes : Bytes) :
    Receives Socket.stream Stop.diverged (socketRead (fragmenting pieces) bytes.length) bytes
      (some bytes) := by
  have exactly : ∀ {stream rest : Bytes} {state : ReadState}, DidRead bytes.length stream state →
      state.sum = bytes.length → stream = bytes ++ rest →
        state.buf = bytes ∧ state.socket.stream = rest := by
    intro stream rest state did all ahead
    exact List.append_inj (did.stream.trans ahead) (did.sum.symm.trans all)
  constructor
  · intro fuel socket rest ahead enough
    have lengths := congrArg List.length ahead
    rw [List.length_append] at lengths
    obtain ⟨state, did, all, ran⟩ := @socketRead_ends pieces bytes.length fuel socket
      (by omega) (by omega)
    obtain ⟨same, left⟩ := exactly did all ahead
    rw [same] at ran
    exact ⟨_, ran, left⟩
  · intro fuel socket rest ahead
    rcases socketRead_cases pieces bytes.length fuel socket with ⟨state, did, all, ran⟩ | lost
    · obtain ⟨same, left⟩ := exactly did all ahead
      rw [same] at ran
      exact Or.inr ⟨_, ran, left⟩
    · exact Or.inl lost
  · intro fuel socket cut shorter
    rcases socketRead_cases pieces bytes.length fuel socket with ⟨state, did, all, ran⟩ | lost
    · -- more was read than there is
      have lengths := congrArg List.length did.stream
      rw [List.length_append, ← did.sum, all] at lengths
      omega
    · exact lost

/-- A receiver of the bytes of `socket_read`, which does not fail. -/
theorem receives_orExit {α : Type} (text : Str) (f : Bytes → α) (bytes : Bytes) :
    Receives Socket.stream Stop.diverged
      (fun fuel => socketRead (fragmenting pieces) bytes.length fuel >>= fun result =>
        orExit text result >>= fun bytes => pure (f bytes)) bytes (f bytes) := by
  have all := (receives_socketRead pieces bytes).bind
    (fun result _ => orExit text result >>= fun bytes => pure (f bytes))
    (Receives.pure (f bytes))
  rw [List.append_nil] at all
  exact all

theorem ofNat_memory (word : UInt32) : UInt32.ofNat (ofLittleEndian (memory word)) = word := by
  rw [memory, ofLittleEndian_littleEndian word.toNat_lt, UInt32.ofNat_toNat]

theorem receives_readLength (text : Str) (word : UInt32) :
    Receives Socket.stream Stop.diverged (readLength (fragmenting pieces) text) (memory word)
      word := by
  have read := receives_orExit pieces text (fun bytes => UInt32.ofNat (ofLittleEndian bytes))
    (memory word)
  rw [ofNat_memory] at read
  exact read

theorem receives_readPid (pid : Int32) :
    Receives Socket.stream Stop.diverged (readPid (fragmenting pieces)) (memory pid.toUInt32)
      pid := by
  have read := receives_orExit pieces "xcalbuild: read pid".toList
    (fun bytes => (UInt32.ofNat (ofLittleEndian bytes)).toInt32) (memory pid.toUInt32)
  rw [ofNat_memory] at read
  exact read

theorem add_one_ne_zero {n : Nat} (fits : n < 2 ^ 32 - 1) : UInt32.ofNat n + 1 ≠ 0 := by
  intro zero
  have value := congrArg UInt32.toNat zero
  rw [UInt32.toNat_add, toNat_length fits] at value
  have below : n + 1 < 2 ^ 32 := by omega
  rw [show (1 : UInt32).toNat = 1 from rfl, Nat.mod_eq_of_lt below] at value
  exact absurd value (Nat.succ_ne_zero n)

theorem receives_readString {s : CString} (fits : s.strlen < 2 ^ 32 - 1) :
    Receives Socket.stream Stop.diverged (readString (fragmenting pieces)) (wireString s) s := by
  refine Receives.bind _ (receives_readLength pieces _ _) ?_
  simp only [if_neg (add_one_ne_zero fits)]
  split_ifs with positive
  · have read := receives_orExit pieces "xcalbuild: read string value".toList CString.ofBuffer
      s.chars
    rw [CString.ofBuffer_chars] at read
    rw [toNat_length fits]
    exact read
  · have absent := chars_eq_nil fits positive
    have same : CString.ofBuffer [] = s := by rw [← absent, CString.ofBuffer_chars]
    rw [absent, same]
    exact Receives.pure s

theorem receives_readStringArray {message : List CString} (count : message.length < 2 ^ 32 - 1)
    (fits : ∀ s ∈ message, s.strlen < 2 ^ 32 - 1) :
    Receives Socket.stream Stop.diverged (readStringArray (fragmenting pieces))
      (wireStrings message) message := by
  have strings := receives_list message fun s member =>
    @receives_readString pieces s (fits s member)
  rw [List.map_id'] at strings
  refine Receives.bind _ (receives_readLength pieces _ _) ?_
  simp only [if_neg (add_one_ne_zero count), toNat_length count]
  exact strings

/-- **The reader gets the message from its bytes**, and nothing from a strict prefix of them. -/
theorem receives_bearReadMessage {e : BearMessage} (fits : e.Fits) :
    Receives Socket.stream Stop.diverged (bearReadMessage (fragmenting pieces)) (wire e)
      e.received := by
  have respFile : (e.respFile.getD .empty).strlen < 2 ^ 32 - 1 := by
    cases content : e.respFile with
    | none => decide
    | some s => exact fits.respFile s content
  refine Receives.bind _ (receives_readPid pieces e.pid) ?_
  refine Receives.bind _ (receives_readPid pieces e.ppid) ?_
  refine Receives.bind _ (receives_readString pieces fits.function) ?_
  refine Receives.bind _ (receives_readString pieces fits.cwd) ?_
  refine Receives.bind _ (receives_readString pieces respFile) ?_
  exact Receives.map _ (receives_readStringArray pieces fits.count fits.cmd)

/-- **The reader loops forever** when the sender closes after a strict prefix of the message. -/
theorem bearReadMessage_diverges {e : BearMessage} (fits : e.Fits) {socket : Socket}
    (cut : socket.stream <+: wire e) (strict : socket.stream ≠ wire e) (fuel : Nat) :
    bearReadMessage (fragmenting pieces) fuel socket = .error .diverged := by
  refine (receives_bearReadMessage pieces fits).cut fuel socket cut ?_
  exact Nat.lt_of_le_of_ne cut.length_le fun same => strict (cut.eq_of_length same)

end Read

/-! ### Connections -/

/-- The message is read over a connection: with the whole message on the stream the reader returns
it and leaves what is after it, and when the sender closes early it stops with an error. -/
structure ReadsRight (kernel : Kernel) (e : BearMessage) (bytes stream : Bytes) : Prop where
  whole : ∀ more, stream = bytes ++ more →
    ∃ fuel socket, bearReadMessage kernel fuel ⟨stream, 0⟩ = .ok (e.received, socket) ∧
      socket.stream = more
  cut : stream <+: bytes → stream ≠ bytes →
    ∃ fuel text, bearReadMessage kernel fuel ⟨stream, 0⟩ = .error (.exited text)

/-- **A message is read over a connection exactly when it is sent as a whole**, however writes and
reads are cut up. -/
theorem readsRight_iff {e : BearMessage} (fits : e.Fits) (writes reads : Nat → Nat) :
    ∃ bytes, (∃ fuel outlet, bearWriteMessage (fragmenting writes) e fuel ⟨[], 0⟩ = some outlet ∧
        outlet.written = bytes) ∧
      ∀ stream, stream <+: bytes ∨ bytes <+: stream →
        (ReadsRight (fragmenting reads) e bytes stream ↔ bytes <+: stream) := by
  have received := receives_bearReadMessage reads fits
  refine ⟨wire e, ?_, fun stream sent => ⟨fun right => ?_, fun whole => ⟨?_, ?_⟩⟩⟩
  · obtain ⟨outlet, ran, adds⟩ := sends_bearWriteMessage writes fits ((wire e).length + 1) ⟨[], 0⟩
      (Nat.lt_succ_self _)
    exact ⟨_, outlet, ran, adds⟩
  · rcases sent with cut | whole
    · by_contra strict
      have differ : stream ≠ wire e := fun same => strict (same ▸ List.prefix_refl _)
      obtain ⟨fuel, text, stopped⟩ := right.cut cut differ
      rw [@bearReadMessage_diverges reads e fits ⟨stream, 0⟩ cut differ fuel] at stopped
      cases stopped
    · exact whole
  · intro more ahead
    obtain ⟨socket, ran, left⟩ := received.whole (stream.length + 1) ⟨stream, 0⟩ more ahead
      (Nat.lt_succ_self _)
    exact ⟨_, socket, ran, left⟩
  · intro cut differ
    exact absurd (cut.eq_of_length_le whole.length_le) differ

/-- A string of ASCII characters. -/
def ascii (s : String) : CString := .ofBuffer (s.toList.map fun c => UInt8.ofNat c.toNat)

/-- The message of the unit test. -/
def testMessage : BearMessage where
  pid := 9
  ppid := 1
  function := ascii "exec"
  cwd := ascii "/tmp"
  respFile := some (ascii "-o -c")
  cmd := [ascii "this", ascii "that"]

theorem fits_testMessage : testMessage.Fits where
  function := by decide
  cwd := by decide
  respFile s member := by
    cases member
    decide
  cmd s member := by
    rcases List.mem_cons.mp member with rfl | member
    · decide
    · rw [List.mem_singleton.mp member]
      decide
  count := by decide

/-- The message of the unit test is read back, if three bytes are written and two are read at a
time. -/
theorem readsRight_testMessage :
    ∃ bytes, (∃ fuel outlet, bearWriteMessage (fragmenting fun _ => 3) testMessage fuel ⟨[], 0⟩ =
        some outlet ∧ outlet.written = bytes) ∧
      ReadsRight (fragmenting fun _ => 2) testMessage bytes bytes := by
  obtain ⟨bytes, written, right⟩ := readsRight_iff fits_testMessage (fun _ => 3) fun _ => 2
  exact ⟨bytes, written,
    (right bytes (Or.inl (List.prefix_refl bytes))).mpr (List.prefix_refl bytes)⟩

/-- A sender that connects and closes leaves the reader in its loop. -/
theorem closed_connection_loops :
    ¬ ∀ (e : BearMessage), e.Fits → ∀ writes reads : Nat → Nat,
      ∃ bytes, (∃ fuel outlet,
          bearWriteMessage (fragmenting writes) e fuel ⟨[], 0⟩ = some outlet ∧
            outlet.written = bytes) ∧
        ∀ stream, stream <+: bytes ∨ bytes <+: stream →
          ReadsRight (fragmenting reads) e bytes stream := by
  intro claimed
  obtain ⟨bytes, -, right⟩ := claimed testMessage fits_testMessage (fun _ => 1) fun _ => 1
  have closed := right [] (Or.inl List.nil_prefix)
  have differ : ([] : Bytes) ≠ wire testMessage := by
    intro same
    cases same
  have loops := fun fuel => @bearReadMessage_diverges (fun _ => 1) testMessage fits_testMessage
    ⟨[], 0⟩ List.nil_prefix differ fuel
  by_cases absent : [] = bytes
  · obtain ⟨fuel, socket, ran, -⟩ := closed.whole [] (by rw [← absent]; rfl)
    rw [loops fuel] at ran
    cases ran
  · obtain ⟨fuel, text, stopped⟩ := closed.cut List.nil_prefix absent
    rw [loops fuel] at stopped
    cases stopped

end Xcalbuild.Tracer

import Mathlib.Data.List.Infix

/-!
# The FIFO buffer

`ECFifoBuffer` of `common/ECFifoBuffer.cpp`, written to by one thread and read from by another. The
mutex is held from the lock or the return of a wait to the next wait or the unlock, so these sections
are the steps of a run. `run_delivers` says that the reader gets the stream of the writer.
-/

namespace Zcp.Common

/-- `ECFifoBuffer`. It never holds more than its maximum. -/
structure ECFifoBuffer where
  m_storage : List UInt8
  m_ulMaxSize : ℕ
  m_bReaderClosed : Bool
  m_bWriterClosed : Bool
  size_le : m_storage.length ≤ m_ulMaxSize

inductive FifoResult where
  | erSuccess
  | ZARAFA_E_INVALID_PARAMETER
  | ZARAFA_E_NOT_ENOUGH_MEMORY
  | ZARAFA_E_TIMEOUT
  | ZARAFA_E_NETWORK_ERROR
deriving DecidableEq, Repr

/-- How a section ends: with a wait, or with the unlock at `exit`. -/
inductive SectionEnd where
  | wait
  | exit (er : FifoResult)
deriving DecidableEq, Repr

/-- The variables of a `Write`; `moved` is what it has really put into the buffer. -/
structure WriteCall where
  lpData : List UInt8
  ulTimeoutMs : ℕ
  cbWritten : ℕ
  moved : List UInt8

/-- The variables of a `Read`, with what it has stored at `lpBuf`; `moved` is what it has really taken
from the buffer. -/
structure ReadCall where
  cbBuf : ℕ
  ulTimeoutMs : ℕ
  lpData : List UInt8
  cbRead : ℕ
  moved : List UInt8

namespace ECFifoBuffer

variable (f : ECFifoBuffer)

def new (ulMaxSize : ℕ) : ECFifoBuffer := ⟨[], ulMaxSize, false, false, Nat.zero_le _⟩

/-- `m_storage.insert` at the end. -/
def push (bytes : List UInt8) (h : bytes.length ≤ f.m_ulMaxSize - f.m_storage.length) :
    ECFifoBuffer :=
  { f with
    m_storage := f.m_storage ++ bytes
    size_le := by
      have := f.size_le
      rw [List.length_append]
      omega }

/-- `m_storage.erase` at the begin. -/
def pop (cbNow : ℕ) : ECFifoBuffer :=
  { f with
    m_storage := f.m_storage.drop cbNow
    size_le := (List.length_drop ▸ Nat.sub_le _ _ : _ ≤ _).trans f.size_le }

/-- A section of `Write`. `enough` says for which inserts there is memory. -/
def writeSection (enough : ℕ → Bool) (f : ECFifoBuffer) (call : WriteCall) :
    ECFifoBuffer × WriteCall × SectionEnd :=
  if call.cbWritten < call.lpData.length then
    if f.m_storage.length = f.m_ulMaxSize then
      if f.m_bReaderClosed then (f, call, .exit .ZARAFA_E_NETWORK_ERROR) else (f, call, .wait)
    else
      let cbNow := min (call.lpData.length - call.cbWritten) (f.m_ulMaxSize - f.m_storage.length)
      let bytes := (call.lpData.drop call.cbWritten).take cbNow
      if enough call.cbWritten then
        writeSection enough (f.push bytes ((List.length_take_le _ _).trans (min_le_right _ _)))
          { call with cbWritten := call.cbWritten + cbNow, moved := call.moved ++ bytes }
      else (f, call, .exit .ZARAFA_E_NOT_ENOUGH_MEMORY)
  else (f, call, .exit .erSuccess)
termination_by call.lpData.length - call.cbWritten
decreasing_by
  have := f.size_le
  show call.lpData.length - (call.cbWritten + min _ _) < _
  omega

/-- A section of `Read`. -/
def readSection (f : ECFifoBuffer) (call : ReadCall) : ECFifoBuffer × ReadCall × SectionEnd :=
  if call.cbRead < call.cbBuf then
    if f.m_storage.length = 0 then
      if f.m_bWriterClosed then (f, call, .exit .erSuccess) else (f, call, .wait)
    else
      let cbNow := min (call.cbBuf - call.cbRead) f.m_storage.length
      readSection (f.pop cbNow)
        { call with
          lpData := call.lpData.take call.cbRead ++ f.m_storage.take cbNow
          cbRead := call.cbRead + cbNow
          moved := call.moved ++ f.m_storage.take cbNow }
  else (f, call, .exit .erSuccess)
termination_by call.cbBuf - call.cbRead
decreasing_by
  show call.cbBuf - (call.cbRead + min _ _) < _
  omega

/-- `Close` with `cfRead` and with `cfWrite`. -/
def close (cfRead cfWrite : Bool) : ECFifoBuffer :=
  { f with
    m_bReaderClosed := f.m_bReaderClosed || cfRead
    m_bWriterClosed := f.m_bWriterClosed || cfWrite }

end ECFifoBuffer

/-! ## The two threads -/

/-- Where a thread is: outside of its function, before the lock, or in a wait. -/
inductive Thread (Call : Type) where
  | idle
  | entered (call : Call)
  | waiting (call : Call)

/-- The call a thread is in. -/
def Thread.call? {Call : Type} : Thread Call → Option Call
  | .idle => none
  | .entered call => some call
  | .waiting call => some call

/-- What a `Write` returned. -/
structure WriteReturn where
  er : FifoResult
  lpcbWritten : Option ℕ
  lpData : List UInt8
  moved : List UInt8

/-- What a `Read` returned, and whether the write side was closed then. -/
structure ReadReturn where
  er : FifoResult
  lpcbRead : Option ℕ
  cbBuf : ℕ
  lpData : List UInt8
  moved : List UInt8
  writerClosed : Bool

/-- The bytes a `Read` returned. -/
def ReadReturn.bytes (r : ReadReturn) : List UInt8 := r.lpData.take (r.lpcbRead.getD 0)

structure FifoSystem where
  fifo : ECFifoBuffer
  writer : Thread WriteCall
  reader : Thread ReadCall
  writes : List WriteReturn
  reads : List ReadReturn

/-- A step: the begin of a call up to the lock, a section, the timeout of a wait, or a `Close`. A
`none` stands for the null pointer. -/
inductive FifoStep where
  | beginWrite (lpBuf : Option (List UInt8)) (ulTimeoutMs : ℕ)
  | writeSection (enough : ℕ → Bool)
  | writeTimeout
  | beginRead (lpBuf : Option Unit) (cbBuf ulTimeoutMs : ℕ)
  | readSection
  | readTimeout
  | close (cfRead cfWrite : Bool)

namespace FifoSystem

variable (s : FifoSystem)

def new (ulMaxSize : ℕ) : FifoSystem := ⟨.new ulMaxSize, .idle, .idle, [], []⟩

/-- The count is reported on success and on a timeout. -/
def reported (er : FifoResult) (cb : ℕ) : Option ℕ :=
  if er = .erSuccess ∨ er = .ZARAFA_E_TIMEOUT then some cb else none

/-- A `Write` returns. -/
def returnWrite (call : WriteCall) (er : FifoResult) : FifoSystem :=
  { s with
    writer := .idle
    writes := s.writes ++ [⟨er, reported er call.cbWritten, call.lpData, call.moved⟩] }

/-- A `Read` returns. -/
def returnRead (call : ReadCall) (er : FifoResult) : FifoSystem :=
  { s with
    reader := .idle
    reads := s.reads ++ [⟨er, reported er call.cbRead, call.cbBuf, call.lpData, call.moved,
      s.fifo.m_bWriterClosed⟩] }

/-- The part of `Write` before the lock. -/
def beginWrite (lpBuf : Option (List UInt8)) (ulTimeoutMs : ℕ) : FifoSystem :=
  match lpBuf with
  | none => s.returnWrite ⟨[], ulTimeoutMs, 0, []⟩ .ZARAFA_E_INVALID_PARAMETER
  | some lpData =>
    if s.fifo.m_bWriterClosed then
      s.returnWrite ⟨lpData, ulTimeoutMs, 0, []⟩ .ZARAFA_E_NETWORK_ERROR
    else if lpData.length = 0 then s.returnWrite ⟨lpData, ulTimeoutMs, 0, []⟩ .erSuccess
    else { s with writer := .entered ⟨lpData, ulTimeoutMs, 0, []⟩ }

/-- The part of `Read` before the lock. -/
def beginRead (lpBuf : Option Unit) (cbBuf ulTimeoutMs : ℕ) : FifoSystem :=
  match lpBuf with
  | none => s.returnRead ⟨cbBuf, ulTimeoutMs, [], 0, []⟩ .ZARAFA_E_INVALID_PARAMETER
  | some _ =>
    if s.fifo.m_bReaderClosed then
      s.returnRead ⟨cbBuf, ulTimeoutMs, [], 0, []⟩ .ZARAFA_E_NETWORK_ERROR
    else if cbBuf = 0 then s.returnRead ⟨cbBuf, ulTimeoutMs, [], 0, []⟩ .erSuccess
    else { s with reader := .entered ⟨cbBuf, ulTimeoutMs, [], 0, []⟩ }

/-- What follows a section of `Write`. -/
def afterWrite : ECFifoBuffer × WriteCall × SectionEnd → FifoSystem
  | (fifo, call, .wait) => { s with fifo := fifo, writer := .waiting call }
  | (fifo, call, .exit er) => returnWrite { s with fifo := fifo } call er

/-- What follows a section of `Read`. -/
def afterRead : ECFifoBuffer × ReadCall × SectionEnd → FifoSystem
  | (fifo, call, .wait) => { s with fifo := fifo, reader := .waiting call }
  | (fifo, call, .exit er) => returnRead { s with fifo := fifo } call er

/-- One step, if it is possible. -/
def step : FifoStep → Option FifoSystem
  | .beginWrite lpBuf ulTimeoutMs =>
    match s.writer with
    | .idle => some (s.beginWrite lpBuf ulTimeoutMs)
    | _ => none
  | .writeSection enough =>
    s.writer.call?.map fun call => s.afterWrite (s.fifo.writeSection enough call)
  | .writeTimeout =>
    match s.writer with
    | .waiting call =>
      if call.ulTimeoutMs > 0 then some (s.returnWrite call .ZARAFA_E_TIMEOUT) else none
    | _ => none
  | .beginRead lpBuf cbBuf ulTimeoutMs =>
    match s.reader with
    | .idle => some (s.beginRead lpBuf cbBuf ulTimeoutMs)
    | _ => none
  | .readSection => s.reader.call?.map fun call => s.afterRead (s.fifo.readSection call)
  | .readTimeout =>
    match s.reader with
    | .waiting call =>
      if call.ulTimeoutMs > 0 then some (s.returnRead call .ZARAFA_E_TIMEOUT) else none
    | _ => none
  | .close cfRead cfWrite => some { s with fifo := s.fifo.close cfRead cfWrite }

/-- The state after a list of steps. -/
def run (steps : List FifoStep) : Option FifoSystem := steps.foldlM step s

/-- The bytes accepted by `Write`. -/
def accepted : List UInt8 :=
  s.writes.flatMap WriteReturn.moved ++ (s.writer.call?.map WriteCall.moved).getD []

/-- The bytes taken by `Read`. -/
def taken : List UInt8 :=
  s.reads.flatMap ReadReturn.moved ++ (s.reader.call?.map ReadCall.moved).getD []

/-- The bytes returned by `Read`. -/
def returned : List UInt8 := s.reads.flatMap ReadReturn.bytes

end FifoSystem

/-! ## Sections -/

/-- A `Write` has moved what it counts. -/
structure WriteCall.Counts (call : WriteCall) : Prop where
  moved : call.moved = call.lpData.take call.cbWritten
  le : call.cbWritten ≤ call.lpData.length

/-- A `Read` has moved what it counts and stored it at `lpBuf`. -/
structure ReadCall.Counts (call : ReadCall) : Prop where
  stored : call.lpData = call.moved
  count : call.cbRead = call.moved.length
  le : call.cbRead ≤ call.cbBuf

namespace ECFifoBuffer

/-- A section of `Write` appends bytes to the buffer and to what the call has moved. On success the
call has moved all its data. -/
theorem writeSection_spec (enough : ℕ → Bool) (f : ECFifoBuffer) {call : WriteCall} (hc : call.Counts) :
    ∃ bytes f' call' fin, f.writeSection enough call = (f', call', fin) ∧
      f'.m_storage = f.m_storage ++ bytes ∧ f'.m_ulMaxSize = f.m_ulMaxSize ∧
      call'.moved = call.moved ++ bytes ∧ call'.Counts ∧ (fin = .exit .erSuccess → call'.moved = call'.lpData) := by
  induction f, call using writeSection.induct enough with
  | case1 f call hlt hfull hclosed =>
    rw [writeSection, if_pos hlt, if_pos hfull, if_pos hclosed]
    exact ⟨[], f, call, _, rfl, by simp, rfl, by simp, hc, by simp⟩
  | case2 f call hlt hfull hclosed =>
    rw [writeSection, if_pos hlt, if_pos hfull, if_neg hclosed]
    exact ⟨[], f, call, _, rfl, by simp, rfl, by simp, hc, by simp⟩
  | case3 f call hlt hfull cbNow bytes hmem ih =>
    rw [writeSection, if_pos hlt, if_neg hfull]
    simp only [hmem, if_true]
    have hnow : call.cbWritten + cbNow ≤ call.lpData.length := by
      have : cbNow ≤ call.lpData.length - call.cbWritten := min_le_left _ _
      omega
    obtain ⟨rest, f', call', fin, heq, hstore, hmax, hmoved, hc', hall⟩ :=
      ih ⟨by rw [hc.moved, List.take_add], hnow⟩
    refine ⟨bytes ++ rest, f', call', fin, heq, ?_, hmax, ?_, hc', hall⟩
    · rw [hstore, push, List.append_assoc]
    · rw [hmoved, List.append_assoc]
  | case4 f call hlt hfull hmem =>
    rw [writeSection, if_pos hlt, if_neg hfull]
    simp only [hmem]
    exact ⟨[], f, call, _, rfl, by simp, rfl, by simp, hc, by simp⟩
  | case5 f call hlt =>
    rw [writeSection, if_neg hlt]
    refine ⟨[], f, call, _, rfl, by simp, rfl, by simp, hc, fun _ => ?_⟩
    rw [hc.moved, List.take_of_length_le (not_lt.mp hlt)]

/-- A section of `Read` takes bytes from the buffer. It ends with fewer bytes than asked only when
the write side is closed. -/
theorem readSection_spec (f : ECFifoBuffer) {call : ReadCall} (hc : call.Counts) :
    ∃ bytes f' call' fin, f.readSection call = (f', call', fin) ∧
      f.m_storage = bytes ++ f'.m_storage ∧ f'.m_ulMaxSize = f.m_ulMaxSize ∧
      call'.moved = call.moved ++ bytes ∧ call'.Counts ∧ ∀ er, fin = .exit er → er = .erSuccess ∧
        (call'.moved.length < call'.cbBuf → f'.m_bWriterClosed = true) := by
  induction f, call using readSection.induct with
  | case1 f call hlt hempty hclosed =>
    rw [readSection, if_pos hlt, if_pos hempty, if_pos hclosed]
    refine ⟨[], f, call, _, rfl, rfl, rfl, by simp, hc, ?_⟩
    rintro er ⟨⟩
    exact ⟨rfl, fun _ => hclosed⟩
  | case2 f call hlt hempty hclosed =>
    rw [readSection, if_pos hlt, if_pos hempty, if_neg hclosed]
    exact ⟨[], f, call, _, rfl, rfl, rfl, by simp, hc, by simp⟩
  | case3 f call hlt hempty cbNow ih =>
    rw [readSection, if_pos hlt, if_neg hempty]
    have hnow : cbNow ≤ f.m_storage.length := min_le_right _ _
    have hbuf : call.cbRead + cbNow ≤ call.cbBuf := by
      have : cbNow ≤ call.cbBuf - call.cbRead := min_le_left _ _
      omega
    have hstored : call.lpData.take call.cbRead = call.moved := by
      rw [hc.stored, hc.count, List.take_length]
    obtain ⟨rest, f', call', fin, heq, hstore, hmax, hmoved, hc', hexit⟩ :=
      ih ⟨by rw [hstored], by rw [hc.count, List.length_append, List.length_take_of_le hnow], hbuf⟩
    refine ⟨f.m_storage.take cbNow ++ rest, f', call', fin, heq, ?_, hmax, ?_, hc', hexit⟩
    · rw [List.append_assoc, ← hstore, pop, List.take_append_drop]
    · rw [hmoved, List.append_assoc]
  | case4 f call hlt =>
    rw [readSection, if_neg hlt]
    refine ⟨[], f, call, _, rfl, rfl, rfl, by simp, hc, ?_⟩
    rintro er ⟨⟩
    refine ⟨rfl, fun hlen => ?_⟩
    rw [← hc.count] at hlen
    exact absurd hlen hlt

end ECFifoBuffer

/-! ## The invariant -/

/-- A returned `Write` reports what it has moved, and on success it has moved all data. -/
structure WriteReturn.Right (w : WriteReturn) : Prop where
  count : ∀ n, w.lpcbWritten = some n → n = w.moved.length
  data : w.moved <+: w.lpData
  all : w.er = .erSuccess → w.moved = w.lpData

/-- A returned `Read` reports and returns what it has moved, and on success with fewer bytes than
asked the write side was closed. -/
structure ReadReturn.Right (r : ReadReturn) : Prop where
  count : ∀ n, r.lpcbRead = some n → n = r.moved.length
  bytes : r.bytes = r.moved
  closed : r.er = .erSuccess → r.bytes.length < r.cbBuf → r.writerClosed = true

namespace FifoSystem

/-- What holds in every state. -/
structure Inv (s : FifoSystem) : Prop where
  stream : s.accepted = s.taken ++ s.fifo.m_storage
  writer : ∀ call, s.writer.call? = some call → call.Counts
  reader : ∀ call, s.reader.call? = some call → call.Counts
  writes : ∀ w ∈ s.writes, w.Right
  reads : ∀ r ∈ s.reads, r.Right

variable {s : FifoSystem}

/-- A `Write` that counts what it moved returns. -/
theorem Inv.returnWrite {call : WriteCall} {er : FifoResult}
    (hstream : s.writes.flatMap WriteReturn.moved ++ call.moved = s.taken ++ s.fifo.m_storage)
    (hc : call.Counts) (hall : er = .erSuccess → call.moved = call.lpData)
    (hreader : ∀ call, s.reader.call? = some call → call.Counts) (hwrites : ∀ w ∈ s.writes, w.Right)
    (hreads : ∀ r ∈ s.reads, r.Right) : Inv (s.returnWrite call er) where
  stream := by
    rw [accepted, FifoSystem.returnWrite]
    simp only [List.flatMap_append, List.flatMap_singleton, Thread.call?, Option.map_none,
      Option.getD_none, List.append_nil]
    exact hstream
  writer call h := by cases h
  reader := hreader
  writes := by
    refine List.forall_mem_append.mpr ⟨hwrites, List.forall_mem_singleton.mpr ⟨?_, ?_, hall⟩⟩
    · intro n hn
      have hlen : call.moved.length = call.cbWritten := by
        rw [hc.moved, List.length_take_of_le hc.le]
      show n = call.moved.length
      rw [reported] at hn
      split_ifs at hn
      exact (hlen.trans (Option.some.inj hn)).symm
    · show call.moved <+: call.lpData
      rw [hc.moved]
      exact List.take_prefix _ _
  reads := hreads

/-- A `Read` that counts what it moved returns. -/
theorem Inv.returnRead {call : ReadCall} {er : FifoResult}
    (hstream : s.accepted = s.reads.flatMap ReadReturn.moved ++ call.moved ++ s.fifo.m_storage)
    (hc : call.Counts) (her : reported er call.cbRead = none → call.moved = [])
    (hclosed : er = .erSuccess → call.moved.length < call.cbBuf → s.fifo.m_bWriterClosed = true)
    (hwriter : ∀ call, s.writer.call? = some call → call.Counts) (hwrites : ∀ w ∈ s.writes, w.Right)
    (hreads : ∀ r ∈ s.reads, r.Right) : Inv (s.returnRead call er) where
  stream := by
    rw [taken, FifoSystem.returnRead]
    simp only [List.flatMap_append, List.flatMap_singleton, Thread.call?, Option.map_none,
      Option.getD_none, List.append_nil]
    exact hstream
  writer := hwriter
  reader call h := by cases h
  writes := hwrites
  reads := by
    have hbytes : call.lpData.take ((reported er call.cbRead).getD 0) = call.moved := by
      rw [hc.stored]
      cases hr : reported er call.cbRead with
      | none => rw [her hr, List.take_nil]
      | some n =>
        rw [reported] at hr
        split_ifs at hr
        rw [← Option.some.inj hr, hc.count, Option.getD_some, List.take_length]
    refine List.forall_mem_append.mpr ⟨hreads, List.forall_mem_singleton.mpr ⟨?_, hbytes, ?_⟩⟩
    · intro n hn
      show n = call.moved.length
      rw [reported] at hn
      split_ifs at hn
      rw [← Option.some.inj hn, hc.count]
    · intro hsuccess hlen
      rw [ReadReturn.bytes] at hlen
      exact hclosed hsuccess (hbytes ▸ hlen)

theorem counts_new (lpData : List UInt8) (ulTimeoutMs : ℕ) : WriteCall.Counts ⟨lpData, ulTimeoutMs, 0, []⟩ :=
  ⟨rfl, Nat.zero_le _⟩

theorem readCounts_new (cbBuf ulTimeoutMs : ℕ) : ReadCall.Counts ⟨cbBuf, ulTimeoutMs, [], 0, []⟩ :=
  ⟨rfl, rfl, Nat.zero_le _⟩

theorem accepted_of_call {call : WriteCall} (h : s.writer.call? = some call) :
    s.accepted = s.writes.flatMap WriteReturn.moved ++ call.moved := by
  rw [accepted, h]
  rfl

theorem taken_of_call {call : ReadCall} (h : s.reader.call? = some call) :
    s.taken = s.reads.flatMap ReadReturn.moved ++ call.moved := by
  rw [taken, h]
  rfl

theorem fifo_beginWrite (lpBuf : Option (List UInt8)) (ulTimeoutMs : ℕ) :
    (s.beginWrite lpBuf ulTimeoutMs).fifo = s.fifo := by
  cases lpBuf with
  | none => rfl
  | some lpData =>
    rw [beginWrite]
    split_ifs <;> rfl

theorem fifo_beginRead (lpBuf : Option Unit) (cbBuf ulTimeoutMs : ℕ) :
    (s.beginRead lpBuf cbBuf ulTimeoutMs).fifo = s.fifo := by
  cases lpBuf with
  | none => rfl
  | some u =>
    rw [beginRead]
    split_ifs <;> rfl

theorem Inv.beginWrite (hs : Inv s) (hidle : s.writer = .idle) (lpBuf : Option (List UInt8))
    (ulTimeoutMs : ℕ) : Inv (s.beginWrite lpBuf ulTimeoutMs) := by
  have hstream : s.writes.flatMap WriteReturn.moved ++ [] = s.taken ++ s.fifo.m_storage := by
    rw [← hs.stream, accepted, hidle]
    rfl
  cases lpBuf with
  | none =>
    exact .returnWrite hstream (counts_new _ _) (fun h => by cases h) hs.reader hs.writes hs.reads
  | some lpData =>
    show Inv (if _ then _ else if _ then _ else _)
    split_ifs with hclosed hempty
    · exact .returnWrite hstream (counts_new _ _) (fun h => by cases h) hs.reader hs.writes hs.reads
    · refine .returnWrite hstream (counts_new _ _) (fun _ => ?_) hs.reader hs.writes hs.reads
      exact (List.length_eq_zero_iff.mp hempty).symm
    · refine ⟨hstream, ?_, hs.reader, hs.writes, hs.reads⟩
      rintro call ⟨⟩
      exact counts_new _ _

theorem Inv.beginRead (hs : Inv s) (hidle : s.reader = .idle) (lpBuf : Option Unit)
    (cbBuf ulTimeoutMs : ℕ) : Inv (s.beginRead lpBuf cbBuf ulTimeoutMs) := by
  have hstream : s.accepted = s.reads.flatMap ReadReturn.moved ++ [] ++ s.fifo.m_storage := by
    rw [hs.stream, taken, hidle]
    rfl
  cases lpBuf with
  | none =>
    exact .returnRead hstream (readCounts_new _ _) (fun _ => rfl) (fun h => by cases h) hs.writer
      hs.writes hs.reads
  | some u =>
    show Inv (if _ then _ else if _ then _ else _)
    split_ifs with hclosed hempty
    · exact .returnRead hstream (readCounts_new _ _) (fun _ => rfl) (fun h => by cases h) hs.writer
        hs.writes hs.reads
    · refine .returnRead hstream (readCounts_new _ _) (fun _ => rfl) (fun _ hlen => ?_) hs.writer
        hs.writes hs.reads
      rw [hempty] at hlen
      cases hlen
    · refine ⟨hstream, hs.writer, ?_, hs.writes, hs.reads⟩
      rintro call ⟨⟩
      exact readCounts_new _ _

theorem Inv.afterWrite (hs : Inv s) {call : WriteCall} (hcall : s.writer.call? = some call) (enough : ℕ → Bool) :
    Inv (s.afterWrite (s.fifo.writeSection enough call)) ∧
      (s.afterWrite (s.fifo.writeSection enough call)).fifo.m_ulMaxSize = s.fifo.m_ulMaxSize := by
  obtain ⟨bytes, f', call', fin, heq, hstore, hmax, hmoved, hc', hall⟩ :=
    ECFifoBuffer.writeSection_spec enough s.fifo (hs.writer call hcall)
  have hstream : s.writes.flatMap WriteReturn.moved ++ call'.moved = s.taken ++ f'.m_storage := by
    rw [hmoved, ← List.append_assoc, ← accepted_of_call hcall, hs.stream, hstore, List.append_assoc]
  rw [heq]
  cases fin with
  | wait =>
    refine ⟨⟨hstream, ?_, hs.reader, hs.writes, hs.reads⟩, hmax⟩
    rintro call ⟨⟩
    exact hc'
  | exit er =>
    refine ⟨.returnWrite (s := { s with fifo := f' }) hstream hc' (fun h => hall (h ▸ rfl)) hs.reader
      hs.writes hs.reads, hmax⟩

theorem Inv.afterRead (hs : Inv s) {call : ReadCall} (hcall : s.reader.call? = some call) :
    Inv (s.afterRead (s.fifo.readSection call)) ∧
      (s.afterRead (s.fifo.readSection call)).fifo.m_ulMaxSize = s.fifo.m_ulMaxSize := by
  obtain ⟨bytes, f', call', fin, heq, hstore, hmax, hmoved, hc', hexit⟩ :=
    ECFifoBuffer.readSection_spec s.fifo (hs.reader call hcall)
  have hstream :
      s.accepted = s.reads.flatMap ReadReturn.moved ++ call'.moved ++ f'.m_storage := by
    rw [hs.stream, taken_of_call hcall, hmoved, hstore]
    simp only [List.append_assoc]
  rw [heq]
  cases fin with
  | wait =>
    refine ⟨⟨hstream, hs.writer, ?_, hs.writes, hs.reads⟩, hmax⟩
    rintro call ⟨⟩
    exact hc'
  | exit er =>
    obtain ⟨rfl, hclosed⟩ := hexit er rfl
    refine ⟨.returnRead (s := { s with fifo := f' }) hstream hc' (fun h => by cases h)
      (fun _ => hclosed) hs.writer hs.writes hs.reads, hmax⟩

/-- Every step keeps the invariant. -/
theorem Inv.step (hs : Inv s) {st : FifoStep} {s' : FifoSystem} (h : s.step st = some s') :
    Inv s' ∧ s'.fifo.m_ulMaxSize = s.fifo.m_ulMaxSize := by
  cases st with
  | beginWrite lpBuf ulTimeoutMs =>
    cases hw : s.writer with
    | idle =>
      simp only [FifoSystem.step, hw, Option.some.injEq] at h
      subst h
      exact ⟨hs.beginWrite hw lpBuf ulTimeoutMs, by rw [fifo_beginWrite]⟩
    | entered call => simp [FifoSystem.step, hw] at h
    | waiting call => simp [FifoSystem.step, hw] at h
  | writeSection enough =>
    obtain ⟨call, hcall, rfl⟩ := Option.map_eq_some_iff.mp h
    exact hs.afterWrite hcall enough
  | writeTimeout =>
    cases hw : s.writer with
    | idle => simp [FifoSystem.step, hw] at h
    | entered call => simp [FifoSystem.step, hw] at h
    | waiting call =>
      simp only [FifoSystem.step, hw] at h
      split_ifs at h
      obtain rfl := Option.some.inj h
      -- a timeout returns what has been accepted so far
      have hcall : s.writer.call? = some call := by
        rw [hw]
        rfl
      exact ⟨.returnWrite (accepted_of_call hcall ▸ hs.stream) (hs.writer call hcall)
        (fun h => by cases h) hs.reader hs.writes hs.reads, rfl⟩
  | beginRead lpBuf cbBuf ulTimeoutMs =>
    cases hr : s.reader with
    | idle =>
      simp only [FifoSystem.step, hr, Option.some.injEq] at h
      subst h
      exact ⟨hs.beginRead hr lpBuf cbBuf ulTimeoutMs, by rw [fifo_beginRead]⟩
    | entered call => simp [FifoSystem.step, hr] at h
    | waiting call => simp [FifoSystem.step, hr] at h
  | readSection =>
    obtain ⟨call, hcall, rfl⟩ := Option.map_eq_some_iff.mp h
    exact hs.afterRead hcall
  | readTimeout =>
    cases hr : s.reader with
    | idle => simp [FifoSystem.step, hr] at h
    | entered call => simp [FifoSystem.step, hr] at h
    | waiting call =>
      simp only [FifoSystem.step, hr] at h
      split_ifs at h
      obtain rfl := Option.some.inj h
      have hcall : s.reader.call? = some call := by
        rw [hr]
        rfl
      exact ⟨.returnRead (taken_of_call hcall ▸ hs.stream) (hs.reader call hcall)
        (fun h => by cases h) (fun h => by cases h) hs.writer hs.writes hs.reads, rfl⟩
  | close cfRead cfWrite =>
    obtain rfl := Option.some.inj h
    exact ⟨⟨hs.stream, hs.writer, hs.reader, hs.writes, hs.reads⟩, rfl⟩

theorem Inv.run (hs : Inv s) {steps : List FifoStep} {s' : FifoSystem}
    (h : s.run steps = some s') : Inv s' ∧ s'.fifo.m_ulMaxSize = s.fifo.m_ulMaxSize := by
  induction steps generalizing s with
  | nil =>
    cases h
    exact ⟨hs, rfl⟩
  | cons st steps ih =>
    rw [FifoSystem.run, List.foldlM_cons] at h
    obtain ⟨s₁, h₁, h⟩ := Option.bind_eq_some_iff.mp h
    obtain ⟨hs₁, hmax⟩ := hs.step h₁
    obtain ⟨hs', hmax'⟩ := ih hs₁ h
    exact ⟨hs', hmax'.trans hmax⟩

theorem inv_new (ulMaxSize : ℕ) : Inv (new ulMaxSize) where
  stream := rfl
  writer call h := by cases h
  reader call h := by cases h
  writes := by simp [new]
  reads := by simp [new]

/-- The returned reads returned what they have moved. -/
theorem Inv.returned (hs : Inv s) : s.returned = s.reads.flatMap ReadReturn.moved :=
  List.flatMap_congr fun r hr => (hs.reads r hr).bytes

end FifoSystem

open FifoSystem in
/-- In every state of every run, what the reader got is a prefix of what was accepted from the writer,
no more than the maximum is stored, the reported counts are right, and a `Read` got less than it
asked for with success only when the write side was closed. -/
theorem run_delivers (m_ulMaxSize : ℕ) (steps : List FifoStep) (s : FifoSystem)
    (h : (FifoSystem.new m_ulMaxSize).run steps = some s) :
    s.returned <+: s.accepted ∧ s.fifo.m_storage.length ≤ m_ulMaxSize ∧
      (∀ w ∈ s.writes, ∀ n, w.lpcbWritten = some n → n = w.moved.length) ∧
      (∀ r ∈ s.reads, ∀ n, r.lpcbRead = some n → n = r.moved.length) ∧
      ∀ r ∈ s.reads, r.er = .erSuccess → r.bytes.length < r.cbBuf → r.writerClosed = true := by
  obtain ⟨hs, hmax⟩ := (inv_new m_ulMaxSize).run h
  refine ⟨?_, ?_, fun w hw => (hs.writes w hw).count, fun r hr => (hs.reads r hr).count,
    fun r hr => (hs.reads r hr).closed⟩
  · rw [hs.stream, hs.returned, taken, List.append_assoc]
    exact List.prefix_append _ _
  · have hle := s.fifo.size_le
    rwa [hmax] at hle

/-- Two bytes are written, the write side is closed, and a read of three bytes gets two. -/
theorem run_delivers_two : ∃ s, (FifoSystem.new 2).run [.beginWrite (some [1, 2]) 0, .writeSection fun _ => true,
        .close false true, .beginRead (some ()) 3 10, .readSection] = some s ∧
      s.returned = [1, 2] ∧ s.returned <+: s.accepted ∧ s.fifo.m_storage.length ≤ 2 ∧
      (∀ w ∈ s.writes, ∀ n, w.lpcbWritten = some n → n = w.moved.length) ∧
      (∀ r ∈ s.reads, ∀ n, r.lpcbRead = some n → n = r.moved.length) ∧
      ∀ r ∈ s.reads, r.er = .erSuccess → r.bytes.length < r.cbBuf → r.writerClosed = true := by
  have hwrite : ECFifoBuffer.writeSection (fun _ => true) (.new 2) ⟨[1, 2], 0, 0, []⟩ =
      (⟨[1, 2], 2, false, false, by decide⟩, ⟨[1, 2], 0, 2, [1, 2]⟩, .exit .erSuccess) := by
    rw [ECFifoBuffer.writeSection]
    simp [ECFifoBuffer.new]
    rw [ECFifoBuffer.writeSection]
    rfl
  have hread : ECFifoBuffer.readSection ⟨[1, 2], 2, false, true, by decide⟩ ⟨3, 10, [], 0, []⟩ =
      (⟨[], 2, false, true, by decide⟩, ⟨3, 10, [1, 2], 2, [1, 2]⟩, .exit .erSuccess) := by
    rw [ECFifoBuffer.readSection]
    simp
    rw [ECFifoBuffer.readSection]
    rfl
  have hrun : (FifoSystem.new 2).run [.beginWrite (some [1, 2]) 0, .writeSection fun _ => true,
      .close false true, .beginRead (some ()) 3 10, .readSection] =
      some ⟨⟨[], 2, false, true, by decide⟩, .idle, .idle, [⟨.erSuccess, some 2, [1, 2], [1, 2]⟩],
        [⟨.erSuccess, some 2, 3, [1, 2], [1, 2], true⟩]⟩ := by
    show ((FifoSystem.new 2).afterWrite (ECFifoBuffer.writeSection (fun _ => true) (.new 2)
      ⟨[1, 2], 0, 0, []⟩)).run [.close false true, .beginRead (some ()) 3 10, .readSection] = _
    rw [hwrite]
    show some (FifoSystem.afterRead ⟨⟨[1, 2], 2, false, true, by decide⟩, .idle,
      .entered ⟨3, 10, [], 0, []⟩, [⟨.erSuccess, some 2, [1, 2], [1, 2]⟩], []⟩
      (ECFifoBuffer.readSection ⟨[1, 2], 2, false, true, by decide⟩ ⟨3, 10, [], 0, []⟩)) = _
    rw [hread]
    rfl
  exact ⟨_, hrun, rfl, run_delivers 2 _ _ hrun⟩

end Zcp.Common

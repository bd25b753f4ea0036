import Mathlib.Tactic.Common
import Mathlib.Logic.Function.Basic
import Zcp.Common.ECFifoBuffer

/-!
# Flush

Any number of threads call `Flush` while the writer and the reader go on. The loop of `Flush` waits while neither the
write end is closed nor the buffer is empty, but it is entered with the write end closed: so `Flush` never waits for the
reader, and it is a barrier only where the reader needs no waiting for.
-/

namespace Zcp.Common

/-- What a `Flush` returned, with the buffer and its threads at that moment. -/
structure FlushReturn where
  er : FifoResult
  now : FifoSystem

/-- The buffer with its writer and its reader, and the threads that call `Flush`. -/
structure FlushSystem where
  sys : FifoSystem
  flushers : ℕ → Thread Unit
  flushes : List FlushReturn

/-- A step of the writer, the reader or `Close`, the test of `Flush` before its lock, or a section of `Flush`. -/
inductive FlushStep where
  | fifo (st : FifoStep)
  | beginFlush (i : ℕ)
  | flushSection (i : ℕ)

namespace ECFifoBuffer

/-- A section of `Flush`: its loop ends or waits once more. -/
def flushSection (f : ECFifoBuffer) : SectionEnd :=
  if ¬ (f.m_bWriterClosed ∨ f.m_storage.length = 0) then .wait else .exit .erSuccess

theorem writeSection_writerClosed (enough : ℕ → Bool) (f : ECFifoBuffer) (call : WriteCall) :
    (f.writeSection enough call).1.m_bWriterClosed = f.m_bWriterClosed := by
  induction f, call using writeSection.induct enough with
  | case1 f call hlt hfull hclosed => rw [writeSection, if_pos hlt, if_pos hfull, if_pos hclosed]
  | case2 f call hlt hfull hclosed => rw [writeSection, if_pos hlt, if_pos hfull, if_neg hclosed]
  | case3 f call hlt hfull cbNow bytes hmem ih =>
    rw [writeSection, if_pos hlt, if_neg hfull]
    simp only [hmem, if_true]
    exact ih
  | case4 f call hlt hfull hmem =>
    rw [writeSection, if_pos hlt, if_neg hfull]
    simp only [hmem]
    rfl
  | case5 f call hlt => rw [writeSection, if_neg hlt]

theorem readSection_writerClosed (f : ECFifoBuffer) (call : ReadCall) :
    (f.readSection call).1.m_bWriterClosed = f.m_bWriterClosed := by
  induction f, call using readSection.induct with
  | case1 f call hlt hempty hclosed => rw [readSection, if_pos hlt, if_pos hempty, if_pos hclosed]
  | case2 f call hlt hempty hclosed => rw [readSection, if_pos hlt, if_pos hempty, if_neg hclosed]
  | case3 f call hlt hempty cbNow ih =>
    rw [readSection, if_pos hlt, if_neg hempty]
    exact ih
  | case4 f call hlt => rw [readSection, if_neg hlt]

end ECFifoBuffer

namespace FifoSystem

variable {s : FifoSystem}

theorem fifo_afterWrite (r : ECFifoBuffer × WriteCall × SectionEnd) : (s.afterWrite r).fifo = r.1 := by
  match r with
  | (_, _, .wait) => rfl
  | (_, _, .exit _) => rfl

theorem fifo_afterRead (r : ECFifoBuffer × ReadCall × SectionEnd) : (s.afterRead r).fifo = r.1 := by
  match r with
  | (_, _, .wait) => rfl
  | (_, _, .exit _) => rfl

/-- The write end is never opened again. -/
theorem step_writerClosed {st : FifoStep} {s' : FifoSystem} (h : s.step st = some s')
    (hclosed : s.fifo.m_bWriterClosed = true) : s'.fifo.m_bWriterClosed = true := by
  cases st with
  | beginWrite lpBuf ulTimeoutMs =>
    rw [FifoSystem.step] at h
    split at h
    · obtain rfl := Option.some.inj h
      rwa [fifo_beginWrite]
    · exact absurd h (Option.some_ne_none _).symm
  | writeSection enough =>
    obtain ⟨call, -, rfl⟩ := Option.map_eq_some_iff.mp h
    rwa [fifo_afterWrite, ECFifoBuffer.writeSection_writerClosed]
  | writeTimeout =>
    rw [FifoSystem.step] at h
    split at h
    · split_ifs at h
      obtain rfl := Option.some.inj h
      exact hclosed
    · exact absurd h (Option.some_ne_none _).symm
  | beginRead lpBuf cbBuf ulTimeoutMs =>
    rw [FifoSystem.step] at h
    split at h
    · obtain rfl := Option.some.inj h
      rwa [fifo_beginRead]
    · exact absurd h (Option.some_ne_none _).symm
  | readSection =>
    obtain ⟨call, -, rfl⟩ := Option.map_eq_some_iff.mp h
    rwa [fifo_afterRead, ECFifoBuffer.readSection_writerClosed]
  | readTimeout =>
    rw [FifoSystem.step] at h
    split at h
    · split_ifs at h
      obtain rfl := Option.some.inj h
      exact hclosed
    · exact absurd h (Option.some_ne_none _).symm
  | close cfRead cfWrite =>
    obtain rfl := Option.some.inj h
    show (s.fifo.m_bWriterClosed || cfWrite) = true
    rw [hclosed, Bool.true_or]

end FifoSystem

namespace FlushSystem

variable (s : FlushSystem)

def new (ulMaxSize : ℕ) : FlushSystem := ⟨.new ulMaxSize, fun _ => .idle, []⟩

/-- A `Flush` returns. -/
def returnFlush (i : ℕ) (er : FifoResult) : FlushSystem :=
  { s with flushers := Function.update s.flushers i .idle, flushes := s.flushes ++ [⟨er, s.sys⟩] }

/-- The part of `Flush` before the lock. -/
def beginFlush (i : ℕ) : FlushSystem :=
  if ¬ s.sys.fifo.m_bWriterClosed then s.returnFlush i .ZARAFA_E_NETWORK_ERROR
  else { s with flushers := Function.update s.flushers i (.entered ()) }

/-- What follows a section of `Flush`. -/
def afterFlush (i : ℕ) : SectionEnd → FlushSystem
  | .wait => { s with flushers := Function.update s.flushers i (.waiting ()) }
  | .exit er => s.returnFlush i er

/-- One step, if it is possible. -/
def step : FlushStep → Option FlushSystem
  | .fifo st => (s.sys.step st).map fun sys => { s with sys := sys }
  | .beginFlush i =>
    match s.flushers i with
    | .idle => some (s.beginFlush i)
    | _ => none
  | .flushSection i => (s.flushers i).call?.map fun _ => s.afterFlush i s.sys.fifo.flushSection

/-- The state after a list of steps. -/
def run (steps : List FlushStep) : Option FlushSystem := steps.foldlM step s

/-- Every `Flush` that returned success found everything accepted taken and the buffer empty, or the read end closed. -/
def Barrier : Prop := ∀ r ∈ s.flushes, r.er = .erSuccess →
  r.now.accepted = r.now.taken ∧ r.now.fifo.m_storage = [] ∨ r.now.fifo.m_bReaderClosed = true

/-- The reader needs no waiting for: it has emptied the buffer, or will not read any more. -/
def CaughtUp (fifo : ECFifoBuffer) : Prop := fifo.m_storage = [] ∨ fifo.m_bReaderClosed = true

/-- Each time a `Flush` gets the lock in the course of the steps, the reader has caught up. -/
def FlushesCaughtUp : FlushSystem → List FlushStep → Prop
  | _, [] => True
  | s, st :: steps =>
    (∀ i, st = .flushSection i → CaughtUp s.sys.fifo) ∧ ∀ s', s.step st = some s' → FlushesCaughtUp s' steps

/-- A thread that is behind the test of `Flush` has seen the write end closed. -/
structure Inv : Prop where
  sys : s.sys.Inv
  closed : ∀ i call, (s.flushers i).call? = some call → s.sys.fifo.m_bWriterClosed = true

variable {s}

/-- With the write end closed, a section of `Flush` never waits. -/
theorem flushSection_of_closed {f : ECFifoBuffer} (h : f.m_bWriterClosed = true) :
    f.flushSection = .exit .erSuccess := by
  rw [ECFifoBuffer.flushSection, if_neg (not_not.mpr (Or.inl h))]

/-- Other threads are left where they are. -/
theorem Inv.update (hs : s.Inv) {i : ℕ} {t : Thread Unit} {flushes : List FlushReturn}
    (ht : ∀ call, t.call? = some call → s.sys.fifo.m_bWriterClosed = true) :
    Inv ⟨s.sys, Function.update s.flushers i t, flushes⟩ := by
  refine ⟨hs.sys, fun j call hcall => ?_⟩
  by_cases hj : j = i
  · have hself : Function.update s.flushers i t j = t := by rw [hj, Function.update_self]
    exact ht call ((congrArg Thread.call? hself).symm.trans hcall)
  · have hother : Function.update s.flushers i t j = s.flushers j := Function.update_of_ne hj ..
    exact hs.closed j call ((congrArg Thread.call? hother).symm.trans hcall)

theorem Inv.returnFlush (hs : s.Inv) (i : ℕ) (er : FifoResult) : (s.returnFlush i er).Inv :=
  hs.update fun _ h => absurd h (Option.some_ne_none _).symm

/-- What a step does: it leaves the list of returned flushes, adds a failure, or adds a success of a `Flush` that got the
lock. -/
theorem Inv.step (hs : s.Inv) {st : FlushStep} {s' : FlushSystem} (h : s.step st = some s') :
    s'.Inv ∧ ((∀ i, st ≠ .flushSection i) ∧
        (s'.flushes = s.flushes ∨ s'.flushes = s.flushes ++ [⟨.ZARAFA_E_NETWORK_ERROR, s.sys⟩]) ∨
      (∃ i, st = .flushSection i) ∧ s'.flushes = s.flushes ++ [⟨.erSuccess, s.sys⟩]) := by
  cases st with
  | fifo st =>
    obtain ⟨sys, hsys, rfl⟩ := Option.map_eq_some_iff.mp h
    refine ⟨⟨(hs.sys.step hsys).1, fun i call hcall => ?_⟩, .inl ⟨nofun, .inl rfl⟩⟩
    exact FifoSystem.step_writerClosed hsys (hs.closed i call hcall)
  | beginFlush i =>
    rw [FlushSystem.step] at h
    split at h
    · obtain rfl := Option.some.inj h
      rw [FlushSystem.beginFlush]
      by_cases hclosed : s.sys.fifo.m_bWriterClosed
      · rw [if_neg (not_not.mpr hclosed)]
        exact ⟨hs.update fun _ _ => hclosed, .inl ⟨nofun, .inl rfl⟩⟩
      · rw [if_pos hclosed]
        exact ⟨hs.returnFlush i _, .inl ⟨nofun, .inr rfl⟩⟩
    · exact absurd h (Option.some_ne_none _).symm
  | flushSection i =>
    obtain ⟨call, hcall, rfl⟩ := Option.map_eq_some_iff.mp h
    rw [flushSection_of_closed (hs.closed i call hcall)]
    exact ⟨hs.returnFlush i _, .inr ⟨⟨i, rfl⟩, rfl⟩⟩

/-- A return that is added keeps the barrier if it meets it itself. -/
theorem barrier_append {s' : FlushSystem} {r : FlushReturn} (h : s'.flushes = s.flushes ++ [r]) :
    s'.Barrier ↔ s.Barrier ∧ (r.er = .erSuccess →
      r.now.accepted = r.now.taken ∧ r.now.fifo.m_storage = [] ∨ r.now.fifo.m_bReaderClosed = true) := by
  rw [Barrier, h, List.forall_mem_append, List.forall_mem_singleton]
  rfl

/-- All accepted bytes are taken when the buffer is empty, so a success is right where the reader has caught up. -/
theorem Inv.caughtUp_iff (hs : s.Inv) : CaughtUp s.sys.fifo ↔
    s.sys.accepted = s.sys.taken ∧ s.sys.fifo.m_storage = [] ∨ s.sys.fifo.m_bReaderClosed = true := by
  rw [CaughtUp]
  refine or_congr_left ⟨fun h => ⟨?_, h⟩, And.right⟩
  have hstream := hs.sys.stream
  rwa [h, List.append_nil] at hstream

theorem Inv.step_barrier (hs : s.Inv) {st : FlushStep} {s' : FlushSystem} (h : s.step st = some s') :
    s'.Barrier ↔ s.Barrier ∧ ∀ i, st = .flushSection i → CaughtUp s.sys.fifo := by
  rcases (hs.step h).2 with ⟨hst, heq | heq⟩ | ⟨⟨i, hst⟩, heq⟩
  · rw [Barrier, heq]
    exact ⟨fun hb => ⟨hb, fun i hi => absurd hi (hst i)⟩, And.left⟩
  · rw [barrier_append heq]
    exact ⟨fun hb => ⟨hb.1, fun i hi => absurd hi (hst i)⟩, fun hb => ⟨hb.1, fun her => by cases her⟩⟩
  · rw [barrier_append heq, hs.caughtUp_iff]
    exact ⟨fun hb => ⟨hb.1, fun _ _ => hb.2 rfl⟩, fun hb => ⟨hb.1, fun _ => hb.2 i hst⟩⟩

/-- Along a run the barrier is kept exactly while each `Flush` finds that the reader has caught up. -/
theorem Inv.run_barrier {steps : List FlushStep} : ∀ {s : FlushSystem}, s.Inv → ∀ {s' : FlushSystem},
    s.run steps = some s' → (s'.Barrier ↔ s.Barrier ∧ FlushesCaughtUp s steps) := by
  induction steps with
  | nil =>
    intro s _ s' h
    obtain rfl := Option.some.inj h
    exact (and_iff_left trivial).symm
  | cons st steps ih =>
    intro s hs s' h
    rw [FlushSystem.run, List.foldlM_cons] at h
    obtain ⟨s₁, h₁, h⟩ := Option.bind_eq_some_iff.mp h
    rw [ih (hs.step h₁).1 h, hs.step_barrier h₁, FlushesCaughtUp, and_assoc]
    refine and_congr_right fun _ => and_congr_right fun _ => ?_
    constructor
    · intro hrest s₂ h₂
      rwa [← Option.some.inj (h₁.symm.trans h₂)]
    · intro hrest
      exact hrest s₁ h₁

theorem inv_new (ulMaxSize : ℕ) : (new ulMaxSize).Inv :=
  ⟨FifoSystem.inv_new ulMaxSize, fun _ _ h => absurd h (Option.some_ne_none _).symm⟩

end FlushSystem

/-- In every state of every run, all successful flushes were barriers exactly if the reader had caught up each time one of
them got the lock. -/
theorem flush_barrier_iff (m_ulMaxSize : ℕ) (steps : List FlushStep) (s : FlushSystem)
    (h : (FlushSystem.new m_ulMaxSize).run steps = some s) :
    s.Barrier ↔ FlushSystem.FlushesCaughtUp (.new m_ulMaxSize) steps := by
  rw [(FlushSystem.inv_new m_ulMaxSize).run_barrier h]
  refine and_iff_right fun r hr => ?_
  exact absurd hr List.not_mem_nil

/-- A byte that is written into an empty buffer. -/
theorem writeSection_byte : ECFifoBuffer.writeSection (fun _ => true) (.new 2) ⟨[1], 0, 0, []⟩ =
    (⟨[1], 2, false, false, by decide⟩, ⟨[1], 0, 1, [1]⟩, .exit .erSuccess) := by
  rw [ECFifoBuffer.writeSection, if_pos (by decide), if_neg (by decide)]
  rw [if_pos rfl, ECFifoBuffer.writeSection, if_neg (by decide)]
  rfl

/-- The byte is read after the write end has been closed. -/
theorem readSection_byte : ECFifoBuffer.readSection ⟨[1], 2, false, true, by decide⟩ ⟨1, 0, [], 0, []⟩ =
    (⟨[], 2, false, true, by decide⟩, ⟨1, 0, [1], 1, [1]⟩, .exit .erSuccess) := by
  rw [ECFifoBuffer.readSection, if_pos (by decide), if_neg (by decide)]
  rw [ECFifoBuffer.readSection, if_neg (by decide)]
  rfl

/-- One byte is written and the write end is closed. -/
def writeAndClose : List FlushStep :=
  [.fifo (.beginWrite (some [1]) 0), .fifo (.writeSection fun _ => true), .fifo (.close false true)]

/-- The buffer with the byte that nobody has read. -/
def byteWritten : FlushSystem where
  sys := ⟨⟨[1], 2, false, true, by decide⟩, .idle, .idle, [⟨.erSuccess, some 1, [1], [1]⟩], []⟩
  flushers := fun _ => .idle
  flushes := []

theorem run_writeAndClose : (FlushSystem.new 2).run writeAndClose = some byteWritten := by
  show FlushSystem.run ⟨(FifoSystem.new 2).afterWrite (ECFifoBuffer.writeSection (fun _ => true) (.new 2)
    ⟨[1], 0, 0, []⟩), fun _ => .idle, []⟩ [.fifo (.close false true)] = _
  rw [writeSection_byte]
  rfl

/-- The buffer after the byte has been read. -/
def byteRead : FlushSystem where
  sys := ⟨⟨[], 2, false, true, by decide⟩, .idle, .idle, [⟨.erSuccess, some 1, [1], [1]⟩],
    [⟨.erSuccess, some 1, 1, [1], [1], true⟩]⟩
  flushers := fun _ => .idle
  flushes := []

theorem run_readByte : byteWritten.run [.fifo (.beginRead (some ()) 1 0), .fifo .readSection] = some byteRead := by
  show some (FlushSystem.mk (FifoSystem.afterRead
    { byteWritten.sys with reader := .entered ⟨1, 0, [], 0, []⟩ }
    (ECFifoBuffer.readSection ⟨[1], 2, false, true, by decide⟩ ⟨1, 0, [], 0, []⟩)) (fun _ => .idle) []) = _
  rw [readSection_byte]
  rfl

namespace FlushSystem

theorem run_append (s : FlushSystem) (steps steps' : List FlushStep) :
    s.run (steps ++ steps') = (s.run steps).bind fun s' => s'.run steps' :=
  List.foldlM_append

/-- The state after a `Flush` that finds the write end closed. -/
def flushed (s : FlushSystem) : FlushSystem :=
  { s with flushers := Function.update s.flushers 0 (.entered ()) }.returnFlush 0 .erSuccess

end FlushSystem

/-- One byte is written, the write end is closed, and `Flush` returns success before the reader has come. -/
theorem flush_before_read : ¬ ∀ m_ulMaxSize steps s,
    (FlushSystem.new m_ulMaxSize).run steps = some s → s.Barrier := by
  intro h
  have hrun : (FlushSystem.new 2).run (writeAndClose ++ [.beginFlush 0, .flushSection 0]) =
      some byteWritten.flushed := by
    rw [FlushSystem.run_append, run_writeAndClose]
    rfl
  rcases h 2 _ _ hrun ⟨.erSuccess, byteWritten.sys⟩ (List.mem_singleton_self _) rfl with ⟨-, hempty⟩ | hreader
  · exact List.cons_ne_nil _ _ hempty
  · exact Bool.false_ne_true hreader

/-- The byte is written, the write end closed, and the byte read before one thread calls `Flush`. -/
theorem flush_barrier_iff_byte : ∃ steps s, (FlushSystem.new 2).run (writeAndClose ++ steps) = some s ∧
    s.sys.accepted = [1] ∧ s.sys.taken = [1] ∧ s.flushes.map FlushReturn.er = [.erSuccess] ∧
      (s.Barrier ↔ FlushSystem.FlushesCaughtUp (.new 2) (writeAndClose ++ steps)) := by
  have hrun : (FlushSystem.new 2).run (writeAndClose ++
      ([.fifo (.beginRead (some ()) 1 0), .fifo .readSection] ++ [.beginFlush 0, .flushSection 0])) =
        some byteRead.flushed := by
    rw [FlushSystem.run_append, run_writeAndClose, Option.bind_some, FlushSystem.run_append, run_readByte]
    rfl
  exact ⟨_, _, hrun, rfl, rfl, rfl, flush_barrier_iff 2 _ _ hrun⟩

end Zcp.Common

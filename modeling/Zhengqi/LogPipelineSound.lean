import Zhengqi.AsyncLoggingSound
import Zhengqi.LogFileSound
import Zhengqi.LogPipeline

/-!
# Whole lines

A buffer of `AsyncLogging` holds whole lines, and `LogFile` rolls between two calls of `append` only. So whatever
the interleaving of the threads, and whatever is dropped, a line is in one file and in one piece, and the lines
are in the order in which they were appended.
-/

namespace Zhengqi

open Run

namespace AsyncLogging

variable {w v : AsyncLogging}

/-! ## The lines of a buffer -/

def texts (ps : List BufferPtr) : List Bytes := ps.map fun p => p.elim [] (·.data)

/-- What is written at once: the message that buffers were dropped, or the lines of a buffer. -/
inductive Chunk
  | message (now : Bytes) (size : Nat)
  | buffer (lines : List Bytes)
  deriving DecidableEq

def Chunk.bytes : Chunk → Bytes
  | .message now size => dropped now size
  | .buffer lines => lines.flatten

def Chunk.lines : Chunk → List Bytes
  | .message .. => []
  | .buffer lines => lines

/-- The lines that a label appends. -/
def Label.lines : Label → List Bytes
  | .append logline => [logline]
  | .stop | .threadFunc _ => []

/-- The lines in the buffers that the back end has still to write, and in those of the front end. -/
structure Holds (w : AsyncLogging) (taken buffers : List (List Bytes)) (current : List Bytes) : Prop where
  taken : texts w.thread.unwritten = taken.map List.flatten
  buffers : texts w.buffers = buffers.map List.flatten
  current : texts [w.currentBuffer] = [current.flatten]

/-- What was written and what is in the buffers are lines that were appended, in their order. -/
def Whole (w : AsyncLogging) (chunks : List Chunk) (lines : List Bytes) : Prop :=
  ∃ taken buffers current, Holds w taken buffers current ∧
    (chunks.flatMap Chunk.lines ++ taken.flatten ++ buffers.flatten ++ current).Sublist lines

theorem appends_of_not_writing (h : w.thread.pc.writing = false) (l : Label) : w.appends l = none := by
  cases l with
  | threadFunc now =>
    unfold appends
    cases hpc : w.thread.pc with
    | drop => rw [hpc] at h; cases h
    | write i => rw [hpc] at h; cases h
    | _ => rfl
  | _ => rfl

section
variable {chunks : List Chunk} {lines : List Bytes} (hp : Pool w) (h : Whole w chunks lines)
include hp h

theorem Whole.append (line : Bytes) (hv : w.append line = .ok v) : Whole v chunks (lines ++ [line]) := by
  obtain ⟨taken, buffers, current, ⟨htaken, hbuffers, hcurrent⟩, hsub⟩ := h
  obtain ⟨b, hb⟩ := Option.ne_none_iff_exists'.mp hp.current
  rw [hb] at hcurrent
  have hdata : b.data = current.flatten := List.singleton_inj.mp hcurrent
  unfold AsyncLogging.append at hv
  rw [hb, BufferPtr.deref, ok_bind] at hv
  split at hv
  · rename_i ha
    cases hv
    refine ⟨taken, buffers, current ++ [line], ⟨htaken, hbuffers, ?_⟩, ?_⟩
    · simp [texts, FixedBuffer.data_append ha, hdata]
    · rw [← List.append_assoc]
      exact hsub.append (List.Sublist.refl _)
  · have hnext : w.nextBuffer.getD .empty = .empty := by
      rcases hp.next with hn | ⟨hn, -⟩ <;> rw [hn] <;> rfl
    rw [hnext] at hv
    cases hv
    have hbuffers' : texts (w.buffers ++ [some b]) = (buffers ++ [current]).map List.flatten := by
      simp only [texts, List.map_append] at hbuffers ⊢
      rw [hbuffers]
      simp [hdata]
    have havail : (FixedBuffer.empty : FixedBuffer kLargeBuffer).avail = kLargeBuffer := rfl
    -- a line that is longer than a buffer is not stored
    by_cases hlen : line.length < kLargeBuffer
    · refine ⟨taken, buffers ++ [current], [line], ⟨htaken, hbuffers', ?_⟩, ?_⟩
      · refine congrArg (fun text => [text]) ?_
        show (FixedBuffer.empty.append line).data = _
        rw [FixedBuffer.data_append (havail ▸ hlen), List.flatten_singleton]
        rfl
      · rw [List.flatten_append, List.flatten_singleton, ← List.append_assoc]
        exact hsub.append (List.Sublist.refl _)
    · refine ⟨taken, buffers ++ [current], [], ⟨htaken, hbuffers', ?_⟩, ?_⟩
      · refine congrArg (fun text => [text]) ?_
        show (FixedBuffer.empty.append line).data = _
        rw [FixedBuffer.append_of_le (havail ▸ Nat.not_lt.mp hlen)]
        rfl
      · rw [List.flatten_append, List.flatten_singleton, ← List.append_assoc, List.append_nil]
        exact hsub.trans (List.sublist_append_left ..)

theorem Whole.turn {now : Bytes} (ht : Turn w now v) :
    ∃ new : Option Chunk, w.appends (.threadFunc now) = new.map Chunk.bytes ∧ Whole v (chunks ++ new.toList) lines := by
  obtain ⟨taken, buffers, current, ⟨htaken, hbuffers, hcurrent⟩, hsub⟩ := h
  cases ht with
  | goes t hw ht hl =>
    rw [Locals.unwritten_of hw] at htaken
    refine ⟨none, appends_of_not_writing hw _, taken, buffers, current, ⟨?_, hbuffers, hcurrent⟩, by simpa using hsub⟩
    rw [Locals.unwritten_of ht]
    exact htaken
  | takes ht hl =>
    have hw := Pc.writing_of_locking hl
    obtain ⟨q, -, htake⟩ := hp.take_eq ht
    rw [Locals.unwritten_of hw] at htaken
    obtain rfl : taken = [] := List.map_eq_nil_iff.mp htaken.symm
    refine ⟨none, appends_of_not_writing hw _, buffers ++ [current], [], [], ?_, ?_⟩
    · rw [htake]
      refine ⟨?_, rfl, rfl⟩
      show texts (w.buffers ++ [w.currentBuffer]) = _
      rw [texts, List.map_append, List.map_append]
      exact congr (congrArg _ hbuffers) hcurrent
    · simpa using hsub
  | keeps hpc hle =>
    refine ⟨none, ?_, taken, buffers, current, ⟨?_, hbuffers, hcurrent⟩, by simpa using hsub⟩
    · simp [appends, hpc, Nat.not_lt.mpr hle]
    · simpa [Locals.unwritten, hpc] using htaken
  | cuts hpc hlt =>
    refine ⟨some (.message now w.thread.buffersToWrite.length), ?_, taken.take 2, buffers, current,
      ⟨?_, hbuffers, hcurrent⟩, ?_⟩
    · simp [appends, hpc, hlt, Chunk.bytes]
    · simp only [Locals.unwritten, hpc, texts] at htaken
      simp only [Locals.unwritten, List.drop_zero, texts, List.map_take]
      rw [htaken]
    · refine List.Sublist.trans ?_ hsub
      simp only [List.flatMap_append, Option.toList_some, List.flatMap_singleton, Chunk.lines, List.append_nil]
      refine ((List.Sublist.refl _).append ?_).append_right _ |>.append_right _
      have hcut : taken.flatten = (taken.take 2).flatten ++ (taken.drop 2).flatten := by
        rw [← List.flatten_append, List.take_append_drop]
      rw [hcut]
      exact List.sublist_append_left ..
  | @writes i b hpc hi =>
    have hd : w.thread.buffersToWrite.drop i = some b :: w.thread.buffersToWrite.drop (i + 1) := by
      obtain ⟨hlt, hget⟩ := List.getElem?_eq_some_iff.mp hi
      rw [List.drop_eq_getElem_cons hlt, hget]
    rw [Locals.unwritten, hpc] at htaken
    dsimp only at htaken
    rw [hd, texts, List.map_cons] at htaken
    cases taken with
    | nil => cases htaken
    | cons first taken =>
      obtain ⟨hfirst, htaken⟩ := List.cons.inj htaken
      refine ⟨some (.buffer first), ?_, taken, buffers, current, ⟨htaken, hbuffers, hcurrent⟩, ?_⟩
      · simpa [appends, hpc, hi, Chunk.bytes] using hfirst
      · simpa [Chunk.lines, List.append_assoc] using hsub
  | @ends i hpc hi =>
    rw [Locals.unwritten, hpc] at htaken
    dsimp only at htaken
    rw [List.drop_eq_nil_of_le hi] at htaken
    refine ⟨none, ?_, taken, buffers, current, ⟨htaken, hbuffers, hcurrent⟩, by simpa using hsub⟩
    simp [appends, hpc, List.getElem?_eq_none_iff.mpr hi]

theorem Whole.step (l : Label) :
    ∃ v, ∃ new : Option Chunk, w.step l = .ok v ∧ w.appends l = new.map Chunk.bytes ∧ Pool v ∧
    Whole v (chunks ++ new.toList) (lines ++ l.lines) := by
  cases l with
  | append line =>
    obtain ⟨v, hv, hpv, -⟩ := hp.append line
    exact ⟨v, none, hv, rfl, hpv, by simpa [Label.lines] using h.append hp line hv⟩
  | stop =>
    obtain ⟨taken, buffers, current, hh, hsub⟩ := h
    refine ⟨_, none, rfl, rfl, hp.setRunning false, taken, buffers, current, ⟨hh.taken, hh.buffers, hh.current⟩, ?_⟩
    simpa [Label.lines] using hsub
  | threadFunc now =>
    obtain ⟨v, hv, hpv, ht⟩ := hp.acts now
    obtain ⟨new, hnew, hw⟩ := h.turn hp ht
    exact ⟨v, new, hv, hnew, hpv, by simpa [Label.lines] using hw⟩

end

end AsyncLogging

namespace LogPipeline

variable {cfg : LogFileConfig} {clock : Nat → Int}

open AsyncLogging

/-- What `AsyncLogging` has written is in the files, one `append` of the file for a chunk. -/
structure Stored (cfg : LogFileConfig) (s : LogPipeline) (lines : List Bytes) (chunks : List Chunk) : Prop where
  pool : Pool s.log
  whole : Whole s.log chunks lines
  rolled : ∃ f seconds, ∃ n : Nat, LogFile.Rolled cfg (chunks.map Chunk.bytes) s.file f seconds ∧
    s.file.count = n % max cfg.checkEveryN 1

theorem Stored.step {s : LogPipeline} {lines : List Bytes} {chunks : List Chunk} (h : Stored cfg s lines chunks)
    (hclock : ∀ k, 0 < clock k) (l : AsyncLogging.Label) :
    ∃ t chunks', step cfg clock s l = .ok t ∧ Stored cfg t (lines ++ l.lines) chunks' := by
  obtain ⟨hp, hw, f, seconds, n, hr, hn⟩ := h
  obtain ⟨v, new, hv, hnew, hpv, hwv⟩ := hw.step hp l
  rw [LogPipeline.step, hv, ok_bind, hnew]
  cases new with
  | none => exact ⟨_, chunks, rfl, hpv, by simpa using hwv, f, seconds, n, hr, hn⟩
  | some chunk =>
    obtain ⟨file, f', seconds', happend, hr', hn', -⟩ := hr.append hclock hn chunk.bytes
    refine ⟨{ log := v, file }, chunks ++ [chunk], ?_, hpv, hwv, f', seconds', _, ?_, hn'⟩
    · simp only [Option.map_some, happend, ok_bind, pure_eq_ok]
    · rw [List.map_append]
      exact hr'

theorem Stored.run (hclock : ∀ k, 0 < clock k) (ls : List AsyncLogging.Label) :
    ∀ {s : LogPipeline} {lines : List Bytes} {chunks : List Chunk}, Stored cfg s lines chunks →
      ∃ t chunks', run (LogPipeline.step cfg clock) s ls = .ok t ∧
        Stored cfg t (lines ++ ls.flatMap AsyncLogging.Label.lines) chunks' := by
  induction ls with
  | nil => exact fun {s lines chunks} h => ⟨s, chunks, rfl, by simpa using h⟩
  | cons l ls ih =>
    intro s lines chunks h
    obtain ⟨u, chunks₁, hu, h⟩ := h.step hclock l
    obtain ⟨t, chunks₂, ht, h⟩ := ih h
    refine ⟨t, chunks₂, (run_cons_ok _).mpr ⟨u, hu, ht⟩, ?_⟩
    rw [List.flatMap_cons, ← List.append_assoc]
    exact h

theorem stored_start (cfg : LogFileConfig) (hclock : 0 < clock 0) : Stored cfg (start cfg clock) [] [] := by
  refine ⟨pool_start, ⟨[], [], [], ⟨rfl, rfl, rfl⟩, List.Sublist.refl _⟩, _, _, 0, LogFile.Rolled.ctor cfg hclock, ?_⟩
  show (LogFile.ctor cfg clock).count = _
  rw [LogFile.ctor, LogFile.count_rollFile]
  exact (Int.zero_emod _).symm

/-- Whatever the threads do, and whatever is dropped: what was written to the files, one `append` after the other,
are messages and the lines of buffers, each buffer in one file; and these are lines that were appended, whole and
in their order. No name of a file comes twice. -/
theorem log_lines_stay_whole (cfg : LogFileConfig) (clock : Nat → Int) (hclock : ∀ k, 0 < clock k)
    (ls : List AsyncLogging.Label) :
    ∃ s, ∃ chunks : List Chunk, run (step cfg clock) (start cfg clock) ls = .ok s ∧
      s.files.flatMap AppendFile.written = chunks.map Chunk.bytes ∧
      (chunks.flatMap Chunk.lines).Sublist (ls.flatMap AsyncLogging.Label.lines) ∧
      (s.files.map AppendFile.filename).Nodup := by
  obtain ⟨s, chunks, hs, -, ⟨taken, buffers, current, -, hsub⟩, f, seconds, -, hr, -⟩ :=
    (stored_start cfg (hclock 0)).run hclock ls
  have hfiles : s.files = s.file.closed ++ [f] := by rw [files, hr.file, Option.toList_some]
  refine ⟨s, chunks, hs, hfiles ▸ hr.lines, ?_, hfiles ▸ hr.names_nodup⟩
  rw [List.nil_append, List.append_assoc, List.append_assoc] at hsub
  exact (List.sublist_append_left ..).trans hsub

/-- Two lines, the first of which is written before the second is appended; the file rolls behind each. -/
theorem log_lines_stay_whole_two : ∃ s, ∃ chunks : List Chunk,
    run (step { LogFile.serverLog with rollSize := 1 } LogFile.dailyClock)
    (start { LogFile.serverLog with rollSize := 1 } LogFile.dailyClock)
        ([.append (ascii "a\n")] ++ List.replicate 10 (.threadFunc []) ++ [.append (ascii "b\n")] ++
          List.replicate 5 (.threadFunc [])) = .ok s ∧
      s.files.map AppendFile.written = [[ascii "a\n"], [ascii "b\n"], []] ∧
      s.files.flatMap AppendFile.written = chunks.map Chunk.bytes ∧
      (chunks.flatMap Chunk.lines).Sublist [ascii "a\n", ascii "b\n"] := by
  have hclock : ∀ k, 0 < LogFile.dailyClock k := by
    intro k
    unfold LogFile.dailyClock LogFile.kRollPerSeconds
    omega
  obtain ⟨s, chunks, hs, hw, hsub, -⟩ :=
    log_lines_stay_whole { LogFile.serverLog with rollSize := 1 } LogFile.dailyClock hclock
    ([.append (ascii "a\n")] ++ List.replicate 10 (.threadFunc []) ++ [.append (ascii "b\n")] ++
      List.replicate 5 (.threadFunc []))
  obtain ⟨s', hs', hf⟩ := ok_of_map (show (run (step { LogFile.serverLog with rollSize := 1 } LogFile.dailyClock)
      (start { LogFile.serverLog with rollSize := 1 } LogFile.dailyClock) ([.append (ascii "a\n")] ++
        List.replicate 10 (.threadFunc []) ++ [.append (ascii "b\n")] ++ List.replicate 5 (.threadFunc []))).map
      (fun s => s.files.map AppendFile.written) = .ok [[ascii "a\n"], [ascii "b\n"], []] by decide +kernel)
  obtain rfl : s = s' := by simpa using hs.symm.trans hs'
  exact ⟨s, chunks, hs, hf, hw, by simpa [AsyncLogging.Label.lines] using hsub⟩

end LogPipeline

end Zhengqi

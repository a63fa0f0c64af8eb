import Zhengqi.EPollPollerSound
import Zhengqi.TcpConnectionSound

/-!
# Output that does not fail

On a connection that its poller holds, with sizes far from the limit of a vector, neither `sendInLoop` nor
`handleWrite` fails.
-/

namespace Zhengqi

open Run

namespace Buffer

/-- An append of a size that is nowhere near the limit. -/
theorem append_total {b : Buffer} (hb : b.WF) {data : Bytes} (h : b.readable.length + 2 * data.length + 16 ≤ maxSize) :
    ∃ c, b.append data = .ok c := by
  have hlen : data.length + kCheapPrepend < 2 ^ 64 := by
    unfold maxSize at h
    unfold kCheapPrepend
    omega
  have hsize : b.writableBytes + b.prependableBytes < data.length + kCheapPrepend →
      b.writerIndex + data.length ≤ maxSize := by
    have h₁ := hb.length_readable
    have h₂ := hb.readableBytes_eq
    have h₃ := hb.writableBytes_eq
    have h₄ := hb.reader_le
    have h₅ := hb.writer_le
    unfold prependableBytes kCheapPrepend
    omega
  obtain ⟨c, hc, -⟩ := append_spec hb hlen hsize
  exact ⟨c, hc⟩

end Buffer

namespace World

variable {w : World EPollPoller}

theorem onChannel_total (hh : EPollPoller.Held w.poller w.conn.channel) (ev : Events)
    {f : EPollPoller → Channel → Except Fault (EPollPoller × Channel)}
    (hf : f w.poller w.conn.channel = Channel.update w.poller { w.conn.channel with events := ev }) :
    ∃ v, w.onChannel f = .ok v := by
  obtain ⟨q, d, hu, -⟩ := hh.updateChannel ev
  exact ⟨_, by rw [onChannel, hf]; exact bind_ok.mpr ⟨(q, d), hu, rfl⟩⟩

theorem appendOutput_total (hb : w.conn.outputBuffer.WF) (hh : EPollPoller.Held w.poller w.conn.channel) {rest : Bytes}
    (hs : w.conn.outputBuffer.readable.length + 2 * rest.length + 16 ≤ Buffer.maxSize) :
    ∃ v, w.appendOutput rest = .ok v := by
  obtain ⟨b, hbuf⟩ := Buffer.append_total hb hs
  unfold appendOutput
  dsimp only
  generalize hu : (if w.conn.highWaterMark ≤ w.conn.outputBuffer.readableBytes + rest.length ∧
      w.conn.outputBuffer.readableBytes < w.conn.highWaterMark ∧ w.conn.highWaterMarkCallback = true then
      w.queueInLoop (.highWaterMark (w.conn.outputBuffer.readableBytes + rest.length)) else w) = u
  have hu' : u.conn = w.conn ∧ u.poller = w.poller := by
    rw [← hu]
    split <;> exact ⟨rfl, rfl⟩
  rw [hu'.1, hbuf, ok_bind]
  split
  · exact ⟨_, rfl⟩
  · refine onChannel_total ?_ (w.conn.channel.events.union kWriteEvent) rfl
    exact hu'.2 ▸ hh

theorem sendInLoop_total (hb : w.conn.outputBuffer.WF) (hh : EPollPoller.Held w.poller w.conn.channel) (data : Bytes)
    (hs : w.conn.outputBuffer.readable.length + 2 * data.length + 16 ≤ Buffer.maxSize) (r : WriteResult) :
    ∃ v, w.sendInLoop data r = .ok v := by
  obtain ⟨u, -, -, -, hconn, hpoller, heq⟩ := sendInLoop_eq hb data r
  have hle := length_leftover_le w data r
  rw [heq]
  split
  · exact ⟨u, rfl⟩
  · refine appendOutput_total (hconn ▸ hb) (by rw [hconn, hpoller]; exact hh) ?_
    rw [hconn]
    omega

/-- Nothing is left for later, whatever the sizes are. -/
theorem sendInLoop_settled (hb : w.conn.outputBuffer.WF) {data : Bytes} {r : WriteResult}
    (hl : w.leftover data r = []) : ∃ v, w.sendInLoop data r = .ok v := by
  obtain ⟨u, -, -, -, -, -, heq⟩ := sendInLoop_eq hb data r
  exact ⟨u, by rw [heq, if_pos hl]⟩

theorem outputDrained_total (hh : EPollPoller.Held w.poller w.conn.channel) : ∃ v, w.outputDrained = .ok v := by
  obtain ⟨u, hu⟩ := onChannel_total hh (w.conn.channel.events.diff kWriteEvent) (f := Channel.disableWriting) rfl
  rw [outputDrained, hu, ok_bind]
  dsimp only
  generalize (if u.conn.writeCompleteCallback = true then u.queueInLoop .writeComplete else u) = x
  split <;> exact ⟨_, rfl⟩

theorem handleWrite_total (hb : w.conn.outputBuffer.WF) (hh : EPollPoller.Held w.poller w.conn.channel)
    (r : WriteResult) :
    ∃ v, w.handleWrite r = .ok v := by
  unfold handleWrite
  split
  · dsimp only
    split
    · have hle : (r.wrote w.conn.outputBuffer.readable.length).nwrote ≤ w.conn.outputBuffer.readableBytes := by
        rw [← hb.length_readable]; exact wrote_le ..
      obtain ⟨b, hb', -⟩ := Buffer.retrieve_spec hb hle
      change ∃ v, (w.conn.outputBuffer.retrieve _ >>= _) = _
      rw [hb', ok_bind]
      split
      · exact outputDrained_total hh
      · exact ⟨_, rfl⟩
    · exact ⟨_, rfl⟩
  · exact ⟨_, rfl⟩

end World

end Zhengqi

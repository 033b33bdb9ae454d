import StakkerMio.Tcp.Input

/-! # What `read` says of the end of the stream

`Ok(0)` means the end only if the slice was not empty, and the slice is as long as
`max`: with a budget of zero any read reports the end. -/
namespace StakkerMio
open Lib

/-- How a stream answers reads into a slice of `room` bytes, when it is at its end or
not: at the end, and for an empty slice, with `Ok(0)`. -/
structure ReadContract (ended : Bool) (room : Nat) (outcomes : List (Result (List UInt8))) :
    Prop where
  atEnd : ended = true → ∀ r ∈ outcomes, isInterrupted r = true ∨ r = .ok []
  empty : room = 0 → ∀ r ∈ outcomes, isInterrupted r = true ∨ r = .ok []
  before : ended = false → 0 < room → .ok [] ∉ outcomes
  fits : ∀ bytes, .ok bytes ∈ outcomes → bytes.length ≤ room

/-- What a read of a buffer says is so. -/
structure TruthfulRead (b : TcpStreamBuf) (max : Nat) (ended : Bool) (b' : TcpStreamBuf)
    (status : ReadStatus) : Prop where
  eof : status = .endOfStream ↔ b.stream.isSome ∧ ended = true
  sets : status = .endOfStream → b'.inpEof = true
  keeps : status ≠ .endOfStream → b'.inpEof = b.inpEof
  newData : status = .newData →
    ∃ new, b'.unread = b.unread ++ new ∧ 1 ≤ new.length ∧ new.length ≤ max
  noData : status ≠ .newData → b'.unread = b.unread

namespace TcpStreamBuf
variable {usizeMax spare max : Nat} {b b' : TcpStreamBuf} {u : List UInt8}

/-! ## Making space, when it returns -/

theorem Unread.growInp_ret (h : b.Unread u)
    (hb : TcpStreamBuf.growInp usizeMax spare b max = .ret b') :
    b'.Unread u ∧ b'.wr + max ≤ b'.inp.length := by
  have hwr := h.wr_le
  obtain ⟨stop, hstop, hb⟩ := Exec.bind_eq_ret.mp hb
  obtain ⟨double, -, hb⟩ := Exec.bind_eq_ret.mp hb
  have hstop := addUsize_ret hstop
  dsimp only at hb
  split at hb
  · cases hb
    refine ⟨⟨h.rd_le, ?_, ?_⟩, ?_⟩
    · simp only [List.length_append]
      omega
    · rw [← h.bytes]
      exact Window.slice_pad h.wr_le _
    · simp only [List.length_append, List.length_replicate]
      omega
  · cases hb
    exact ⟨h, by omega⟩

theorem Unread.inpMakespace_ret (h : b.Unread u)
    (hb : TcpStreamBuf.inpMakespace usizeMax spare b max = .ret b') :
    b'.Unread u ∧ b'.wr + max ≤ b'.inp.length := by
  obtain ⟨h₁, -⟩ := h.rewind
  obtain ⟨stop, hstop, hb⟩ := Exec.bind_eq_ret.mp hb
  have hstop := addUsize_ret hstop
  split at hb
  · cases hb
    exact ⟨h₁, by omega⟩
  · split at hb
    · obtain ⟨b₂, hb₂, hb⟩ := Exec.bind_eq_ret.mp hb
      obtain ⟨stop₂, hstop₂, hb⟩ := Exec.bind_eq_ret.mp hb
      have hstop₂ := addUsize_ret hstop₂
      obtain ⟨b₂', hb₂', h₂, -⟩ := h₁.compact
      rw [hb₂] at hb₂'
      cases hb₂'
      split at hb
      · cases hb
        exact ⟨h₂, by omega⟩
      · exact h₂.growInp_ret hb
    · exact h₁.growInp_ret hb

/-! ## The loop of `read` -/

/-- How the outcome that ends the loop shows in what the loop returns. -/
theorem readLoop_result (h : b.Unread u) (hroom : b.wr + max ≤ b.inp.length)
    {outcomes : List (Result (List UInt8))} {status : ReadStatus} {calls : List StreamCall}
    (hfits : ∀ bytes, .ok bytes ∈ outcomes → bytes.length ≤ max)
    (hread : readLoop usizeMax b (b.wr + max) outcomes = .ret (b', status, calls)) :
    ∃ r ∈ outcomes, isInterrupted r = false ∧ match r with
      | .ok [] => status = .endOfStream ∧ b' = { b with inpEof := true }
      | .ok bytes => status = .newData ∧ b'.inpEof = b.inpEof ∧ b'.Unread (u ++ bytes)
      | .error _ => status ≠ .endOfStream ∧ status ≠ .newData ∧ b' = b := by
  have hcond : b.wr ≤ b.wr + max ∧ b.wr + max ≤ b.inp.length := ⟨Nat.le_add_right _ _, hroom⟩
  induction outcomes generalizing calls with
  | nil =>
    unfold readLoop at hread
    split at hread <;> cases hread
  | cons r outcomes ih =>
    unfold readLoop at hread
    rw [if_pos hcond] at hread
    cases r with
    | ok bytes =>
      refine ⟨.ok bytes, List.mem_cons_self, rfl, ?_⟩
      cases bytes with
      | nil =>
        cases hread
        exact ⟨rfl, rfl⟩
      | cons byte bytes =>
        have hlen := hfits _ List.mem_cons_self
        have htake : (byte :: bytes).take (b.wr + max - b.wr) = byte :: bytes :=
          List.take_of_length_le (by omega)
        obtain ⟨wr, hwr, hread⟩ := Exec.bind_eq_ret.mp hread
        have hwr := addUsize_ret hwr
        subst hwr
        rw [htake] at hread
        cases hread
        exact ⟨rfl, rfl, h.extend (by omega)⟩
    | error e =>
      by_cases hinterrupted : e.kind = .interrupted
      · have hblock : e.kind ≠ .wouldBlock := by simp [hinterrupted]
        dsimp only at hread
        rw [if_neg hblock, if_pos hinterrupted] at hread
        obtain ⟨⟨b₁, status₁, calls₁⟩, hloop, hread⟩ := Exec.bind_eq_ret.mp hread
        cases hread
        obtain ⟨r, hr, hresult⟩ :=
          ih (fun bytes hb => hfits bytes (List.mem_cons_of_mem _ hb)) hloop
        exact ⟨r, List.mem_cons_of_mem _ hr, hresult⟩
      · refine ⟨.error e, List.mem_cons_self, by simpa [isInterrupted] using hinterrupted, ?_⟩
        dsimp only at hread
        split at hread
        · cases hread
          exact ⟨by simp, by simp, rfl⟩
        · cases hread
          exact ⟨by simp, by simp, rfl⟩

/-- An outcome that is not `Ok(0)` comes before the end, for a slice with room. -/
theorem not_ended {ended : Bool} {outcomes : List (Result (List UInt8))}
    (hcontract : ReadContract ended max outcomes) {r : Result (List UInt8)} (hr : r ∈ outcomes)
    (hdecided : isInterrupted r = false) (hne : r ≠ .ok []) : ended = false ∧ 0 < max := by
  constructor
  · by_contra hended
    rcases hcontract.atEnd (by simpa using hended) r hr with hi | hok
    · rw [hdecided] at hi
      cases hi
    · exact hne hok
  · by_contra hmax
    rcases hcontract.empty (by omega) r hr with hi | hok
    · rw [hdecided] at hi
      cases hi
    · exact hne hok

/-- **The end of the stream.** For any offsets in range, any budget and any answers of
the stream, what a read that returned says is so exactly if no stream is installed,
the budget is not zero, or the stream is at its end. -/
theorem read_truthful_iff (ended : Bool) (outcomes : List (Result (List UInt8)))
    (status : ReadStatus) (calls : List StreamCall) (hrd : b.rd ≤ b.wr)
    (hwr : b.wr ≤ b.inp.length) (hcontract : ReadContract ended max outcomes)
    (hread : read usizeMax spare b max outcomes = .ret (b', status, calls)) :
    TruthfulRead b max ended b' status ↔ b.stream = none ∨ 0 < max ∨ ended = true := by
  have hu : b.Unread b.unread := ⟨hrd, hwr, rfl⟩
  obtain ⟨b₁, hb₁, hread⟩ := Exec.bind_eq_ret.mp hread
  obtain ⟨hu₁, hroom⟩ := hu.inpMakespace_ret hb₁
  have heof : b₁.inpEof = b.inpEof := by rw [inpMakespace_frame hb₁]
  have hstream : b₁.stream = b.stream := by rw [inpMakespace_frame hb₁]
  split at hread
  · rename_i hnone
    cases hread
    rw [hnone] at hstream
    refine ⟨fun _ => .inl hstream.symm, fun _ => ⟨?_, nofun, fun _ => heof, nofun, fun _ => ?_⟩⟩
    · rw [← hstream]
      exact ⟨nofun, nofun⟩
    · exact hu₁.bytes
  · rename_i stream hsome
    rw [hstream] at hsome
    obtain ⟨stop, hstop, hread⟩ := Exec.bind_eq_ret.mp hread
    have hstop := addUsize_ret hstop
    subst hstop
    obtain ⟨r, hr, hdecided, hresult⟩ := readLoop_result hu₁ hroom hcontract.fits hread
    match r, hr, hdecided, hresult with
    | .ok [], hr, hdecided, ⟨hstatus, hb'⟩ =>
      subst hstatus hb'
      constructor
      · intro htruth
        exact .inr (.inr (htruth.eof.mp rfl).2)
      · intro hcond
        have hended : ended = true := by
          rcases hcond with hnone | hpos | hended
          · rw [hsome] at hnone
            cases hnone
          · by_contra hended
            exact hcontract.before (by simpa using hended) hpos hr
          · exact hended
        refine ⟨?_, fun _ => rfl, fun hne => absurd rfl hne, nofun, fun _ => hu₁.bytes⟩
        rw [hsome]
        exact ⟨fun _ => ⟨rfl, hended⟩, fun _ => rfl⟩
    | .ok (byte :: bytes), hr, hdecided, ⟨hstatus, hb', hunread⟩ =>
      subst hstatus
      obtain ⟨hended, hpos⟩ := not_ended hcontract hr hdecided nofun
      refine ⟨fun _ => .inr (.inl hpos), fun _ => ⟨?_, nofun, fun _ => hb'.trans heof,
        fun _ => ⟨_, hunread.bytes, ?_, hcontract.fits _ hr⟩, fun hne => absurd rfl hne⟩⟩
      · rw [hended]
        exact ⟨nofun, nofun⟩
      · exact Nat.succ_le_succ (Nat.zero_le _)
    | .error e, hr, hdecided, ⟨hend, hnew, hb'⟩ =>
      subst hb'
      obtain ⟨hended, hpos⟩ := not_ended hcontract hr hdecided nofun
      refine ⟨fun _ => .inr (.inl hpos), fun _ => ⟨?_, fun h => absurd h hend, fun _ => heof,
        fun h => absurd h hnew, fun _ => hu₁.bytes⟩⟩
      rw [hended]
      exact ⟨fun h => absurd h hend, nofun⟩

/-- One byte is unread, and there is no space for five more behind it. -/
def sampleBuf : TcpStreamBuf :=
  { inp := [3, 4, 5, 6, 7, 8, 9, 0], rd := 5, wr := 6, stream := some 0 }

/-- Five bytes are offered, and an interruption before them. -/
theorem read_truthful_iff_sample :
    ∃ b' status calls,
      read 1000 0 sampleBuf 5
        [.error ⟨.interrupted, none⟩, .ok [1, 2, 3, 4, 5]] = .ret (b', status, calls) ∧
      TruthfulRead sampleBuf 5 false b' status := by
  have hcontract : ReadContract false 5
      [.error ⟨.interrupted, none⟩, .ok [1, 2, 3, 4, 5]] :=
    ⟨nofun, nofun, by simp, by simp⟩
  obtain ⟨⟨b', status, calls⟩, hread⟩ := Exec.exists_ret
    (x := read 1000 0 sampleBuf 5
      [.error ⟨.interrupted, none⟩, .ok [1, 2, 3, 4, 5]]) rfl
  exact ⟨b', status, calls, hread, (read_truthful_iff false _ status calls (by decide) (by decide)
    hcontract hread).mpr (.inr (.inl (by decide)))⟩

/-- With no budget left a stream that has not ended is taken to be at its end. -/
theorem read_zero_budget :
    ReadContract false 0 [.ok []] ∧
    ∃ b' calls,
      read 1000 0 { stream := some 0 } 0 [.ok []] = .ret (b', .endOfStream, calls) ∧
      b'.inpEof = true ∧ b'.ioRead 8 = .ret (b', .ok []) :=
  ⟨⟨nofun, by simp, nofun, by simp⟩, _, _, rfl, rfl, rfl⟩

end TcpStreamBuf
end StakkerMio

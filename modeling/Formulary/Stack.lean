/-!
# The stack of the process

The parser, the printer and the evaluator go down a tree by recursion, on a stack that holds so many
frames and no more. Before they begin, the parser and the evaluator ask for headroom: the limit of the
stack is raised by a number of frames for as long as they work. The system may refuse a limit, and a
stack that was given headroom may still run out. All of these are outcomes.
-/

namespace Formulary

/-- A stack: how many frames it may hold, and how many are on it. -/
structure Stack where
  limit : Int
  used : Nat
  fits : used ≤ limit

namespace Stack

/-- Why a stack does not serve: the limit asked for is no number of 32 bits, it is not positive, or
there is no room for a frame. -/
inductive Error where
  | outOfRange
  | notPositive
  | exhausted
deriving DecidableEq, Repr

/-- The stack as a process finds it that has hardly begun. -/
def usual : Stack := ⟨1000, 0, by decide⟩

/-- The room that is left. -/
def room (s : Stack) : Int := s.limit - s.used

/-- The stack with its limit raised by some frames, or lowered by them if they are negative. The
number is checked first, then its sign, then whether the frames on the stack fit. -/
def raised (s : Stack) (frames : Int) : Except Error Stack :=
  if s.limit + frames < -2147483648 ∨ 2147483647 < s.limit + frames then .error .outOfRange
  else if s.limit + frames ≤ 0 then .error .notPositive
  else if h : s.used < s.limit + frames then .ok ⟨s.limit + frames, s.used, Int.le_of_lt h⟩
  else .error .exhausted

/-- The stack with some more frames on it, if there is room for them. -/
def holding (s : Stack) (frames : Nat) : Option Stack :=
  if h : (s.used + frames : Nat) ≤ s.limit then some ⟨s.limit, s.used + frames, h⟩ else none

/-- The system grants headroom up to the greatest number of 32 bits, for what is on the stack. -/
theorem raised_eq_ok_iff {s t : Stack} {frames : Int} :
    s.raised frames = .ok t ↔
      s.limit + frames ≤ 2147483647 ∧ s.used < s.limit + frames ∧
        t.limit = s.limit + frames ∧ t.used = s.used := by
  unfold raised
  obtain ⟨limit, used, fits⟩ := t
  split
  · next h =>
    simp only [reduceCtorEq, false_iff]
    omega
  · split
    · simp only [reduceCtorEq, false_iff]
      omega
    · split
      · simp only [Except.ok.injEq, Stack.mk.injEq]
        omega
      · simp only [reduceCtorEq, false_iff]
        omega

/-- It refuses a limit above that. -/
theorem raised_eq_outOfRange {s : Stack} {frames : Int} (h : 2147483647 < s.limit + frames) :
    s.raised frames = .error .outOfRange :=
  if_pos (.inr h)

/-- It refuses headroom of some frames for no other reason. -/
theorem outOfRange_of_raised {s : Stack} {frames : Int} {e : Error} (hpositive : 0 < frames)
    (h : s.raised frames = .error e) : e = .outOfRange ∧ 2147483647 < s.limit + frames := by
  have hfits := s.fits
  by_cases hrange : s.limit + frames ≤ 2147483647
  · have hgranted : s.raised frames = .ok ⟨s.limit + frames, s.used, by omega⟩ :=
      raised_eq_ok_iff.mpr ⟨hrange, by omega, rfl, rfl⟩
    cases h.symm.trans hgranted
  · have hgreat := Int.not_le.mp hrange
    exact ⟨Except.error.inj (h.symm.trans (raised_eq_outOfRange hgreat)), hgreat⟩

/-- Frames are put on a stack where there is room. -/
theorem holding_eq_some_iff {s t : Stack} {frames : Nat} :
    s.holding frames = some t ↔
      frames ≤ s.room ∧ t.limit = s.limit ∧ t.used = s.used + frames := by
  unfold holding room
  obtain ⟨limit, used, fits⟩ := t
  split
  · simp only [Option.some.injEq, Stack.mk.injEq]
    omega
  · simp only [reduceCtorEq, false_iff]
    omega

/-- Where there is room for some frames they can be put on the stack. -/
theorem exists_holding {s : Stack} {frames : Nat} (h : frames ≤ s.room) :
    ∃ deeper, s.holding frames = some deeper ∧ deeper.room = s.room - frames := by
  have hfits : (s.used + frames : Nat) ≤ s.limit := by
    unfold room at h
    omega
  refine ⟨⟨s.limit, s.used + frames, hfits⟩, holding_eq_some_iff.mpr ⟨h, rfl, rfl⟩, ?_⟩
  simp only [room]
  omega

/-- Where a stack has room for some frames, a stack with more room has some for fewer, and still has
more room then. -/
theorem holding_of_room {s t deeper : Stack} {frames fewer : Nat} (hframes : fewer ≤ frames)
    (hroom : s.room ≤ t.room) (h : s.holding frames = some deeper) :
    ∃ deeper', t.holding fewer = some deeper' ∧ deeper.room ≤ deeper'.room := by
  obtain ⟨hfits, hlimit, hused⟩ := holding_eq_some_iff.mp h
  obtain ⟨deeper', hdeeper', hleft⟩ := exists_holding (show fewer ≤ t.room by omega)
  refine ⟨deeper', hdeeper', ?_⟩
  unfold room at *
  omega

/-- A stack with room has some for nothing. -/
theorem holding_zero (s : Stack) : s.holding 0 = some s := by
  rw [holding_eq_some_iff]
  have hfits := s.fits
  unfold room
  omega

end Stack

end Formulary

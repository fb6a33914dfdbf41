import Mathlib.Algebra.Order.ToIntervalMod
import Mathlib.Analysis.SpecialFunctions.Complex.Arg
import Mathlib.Tactic.Linarith
import Mathlib.Tactic.NormNum
import Mathlib.Tactic.Ring
import Milling.Toolpath.Path

/-!
# How far an arc turns

An arc is given by where it begins and ends, as seen from its centre, and by its direction; how
far it turns is computed from the difference of two angles. That difference may be off by whole
turns, and of either sign, so it is brought into one turn first. Then what is nearly nothing is
taken for a full turn, because an arc that returns to its start is a circle.

Angles are real numbers here, and so are lengths. The full turn may be any number that is
well above the one that counts as nothing.
-/

namespace Milling

/-- Arithmetic without rounding, for what rationals cannot measure. -/
noncomputable instance : Scalar ℝ where
  decidableLT := inferInstance
  ofNat n := n
  isFinite _ := true
  lesser a b := if b < a then b else a
  greater a b := if a < b then b else a
  magnitude x := if x < 0 then -x else x
  remainder a b := a - b * if a / b < 0 then (⌈a / b⌉ : ℝ) else (⌊a / b⌋ : ℝ)

/-- The other direction. -/
def Turn.opposite : Turn → Turn
  | .clockwise => .counterclockwise
  | .counterclockwise => .clockwise

namespace Ruler

/-- A whole number of turns, or so near to one that it counts as such. -/
def Whole (r : Ruler ℝ) (angle : ℝ) : Prop :=
  ∃ turns : ℤ, |angle - turns * r.fullTurn| < 1 / 10 ^ 9

/-- How far an arc turns if the directions of its ends are this far apart. -/
noncomputable def turned (r : Ruler ℝ) (angle : ℝ) : ℝ :=
  if r.withinTurn angle < 1 / 10 ^ 9 then r.fullTurn else r.withinTurn angle

variable {r : Ruler ℝ} {angle first last : ℝ}

/-! ## Angles within one turn -/

/-- The remainder is less than a turn, and what it leaves out are whole turns. -/
theorem exists_remainder (h : 0 < r.fullTurn) (angle : ℝ) : ∃ turns : ℤ,
    angle = Scalar.remainder angle r.fullTurn + turns • r.fullTurn ∧
      |Scalar.remainder angle r.fullTurn| < r.fullTurn := by
  have hangle : angle = angle / r.fullTurn * r.fullTurn := (div_mul_cancel₀ angle h.ne').symm
  have hspec : ∀ turns : ℤ, angle = angle - r.fullTurn * turns + turns • r.fullTurn := by
    intro turns
    rw [zsmul_eq_mul]
    ring
  have hbound : ∀ turns : ℤ, |angle / r.fullTurn - turns| < 1 →
      |angle - r.fullTurn * turns| < r.fullTurn := by
    intro turns hturns
    calc |angle - r.fullTurn * turns|
        = |(angle / r.fullTurn - turns) * r.fullTurn| := by rw [sub_mul, ← hangle, mul_comm]
      _ = |angle / r.fullTurn - turns| * r.fullTurn := by rw [abs_mul, abs_of_pos h]
      _ < 1 * r.fullTurn := mul_lt_mul_of_pos_right hturns h
      _ = r.fullTurn := one_mul _
  -- below zero the quotient is rounded up, so the remainder goes towards zero on both sides
  by_cases hneg : angle / r.fullTurn < 0
  · have hremainder : Scalar.remainder angle r.fullTurn =
        angle - r.fullTurn * ⌈angle / r.fullTurn⌉ :=
      congrArg (fun turns => angle - r.fullTurn * turns) (if_pos hneg)
    rw [hremainder]
    refine ⟨_, hspec _, hbound _ (abs_lt.mpr ⟨?_, ?_⟩)⟩
    · linarith [Int.ceil_lt_add_one (angle / r.fullTurn)]
    · linarith [Int.le_ceil (angle / r.fullTurn)]
  · have hremainder : Scalar.remainder angle r.fullTurn =
        angle - r.fullTurn * ⌊angle / r.fullTurn⌋ :=
      congrArg (fun turns => angle - r.fullTurn * turns) (if_neg hneg)
    rw [hremainder]
    refine ⟨_, hspec _, hbound _ (abs_lt.mpr ⟨?_, ?_⟩)⟩
    · linarith [Int.floor_le (angle / r.fullTurn)]
    · linarith [Int.lt_floor_add_one (angle / r.fullTurn)]

/-- A remainder below zero is brought above it, also where it is nearly nothing. -/
theorem withinTurn_eq_toIcoMod (h : 0 < r.fullTurn) (angle : ℝ) :
    r.withinTurn angle = toIcoMod h 0 angle := by
  obtain ⟨turns, hangle, hbound⟩ := exists_remainder h angle
  obtain ⟨hleast, hmost⟩ := abs_lt.mp hbound
  rw [eq_comm, toIcoMod_eq_iff, zero_add]
  by_cases hneg : Scalar.remainder angle r.fullTurn < 0
  · have hwithin : r.withinTurn angle = Scalar.remainder angle r.fullTurn + r.fullTurn :=
      (if_pos (hneg.trans_eq Nat.cast_zero.symm)).trans
        (congrArg (_ + ·) (if_neg h.not_gt))
    rw [hwithin]
    refine ⟨⟨by linarith, by linarith⟩, turns - 1, ?_⟩
    rw [sub_zsmul, one_zsmul]
    linarith
  · have hwithin : r.withinTurn angle = Scalar.remainder angle r.fullTurn :=
      if_neg fun hlt => hneg (hlt.trans_eq Nat.cast_zero)
    rw [hwithin]
    exact ⟨⟨not_lt.mp hneg, hmost⟩, turns, hangle⟩

theorem withinTurn_mem (h : 0 < r.fullTurn) (angle : ℝ) :
    0 ≤ r.withinTurn angle ∧ r.withinTurn angle < r.fullTurn := by
  rw [withinTurn_eq_toIcoMod h]
  have hmem := toIcoMod_mem_Ico h 0 angle
  rw [zero_add] at hmem
  exact hmem

/-! ## Sweeps -/

theorem sweep_eq_turned (turn : Turn) : r.sweep turn first last = r.turned (match turn with
    | .clockwise => first - last
    | .counterclockwise => -(first - last)) := by
  have hnear : Scalar.ofNat 1 / Scalar.ofNat 1000000000 = (1 / 10 ^ 9 : ℝ) := by
    show ((1 : ℕ) : ℝ) / (1000000000 : ℕ) = _
    norm_num
  unfold sweep
  rw [hnear]
  cases turn with
  | clockwise => rfl
  | counterclockwise =>
      rw [neg_sub]
      rfl

theorem turned_pos (h : 0 < r.fullTurn) (angle : ℝ) : 0 < r.turned angle := by
  rw [turned]
  split
  · exact h
  · rename_i hfar
    linarith

theorem turned_le (h : 0 < r.fullTurn) (angle : ℝ) : r.turned angle ≤ r.fullTurn := by
  rw [turned]
  split
  · exact le_rfl
  · exact (withinTurn_mem h angle).2.le

theorem Whole.neg (hwhole : r.Whole angle) : r.Whole (-angle) := by
  obtain ⟨turns, hturns⟩ := hwhole
  refine ⟨-turns, ?_⟩
  rwa [Int.cast_neg, neg_mul, neg_sub_neg, ← abs_sub_comm]

/-- Just under a whole number of turns an arc turns through nearly one, and just above it
through one. -/
theorem Whole.le_turned (hwhole : r.Whole angle) (h : 1 / 1000 < r.fullTurn) :
    r.fullTurn - 1 / 10 ^ 9 ≤ r.turned angle := by
  have hpos : 0 < r.fullTurn := by linarith
  obtain ⟨turns, hturns⟩ := hwhole
  obtain ⟨hleast, hmost⟩ := abs_lt.mp hturns
  have hshift : r.withinTurn angle = toIcoMod hpos 0 (angle - turns * r.fullTurn) := by
    rw [withinTurn_eq_toIcoMod hpos, ← zsmul_eq_mul, toIcoMod_sub_zsmul]
  rw [turned]
  split
  · linarith
  · rename_i hfar
    by_cases hneg : angle - turns * r.fullTurn < 0
    · have hunder : r.withinTurn angle = angle - turns * r.fullTurn + r.fullTurn := by
        rw [hshift, ← toIcoMod_add_right, toIcoMod_eq_self, zero_add]
        exact ⟨by linarith, by linarith⟩
      linarith
    · have habove : r.withinTurn angle = angle - turns * r.fullTurn := by
        rw [hshift, toIcoMod_eq_self, zero_add]
        exact ⟨not_lt.mp hneg, by linarith⟩
      exact absurd (habove.trans_lt hmost) hfar

theorem le_withinTurn_of_not_whole (h : 0 < r.fullTurn) (hfar : ¬r.Whole angle) :
    1 / 10 ^ 9 ≤ r.withinTurn angle := by
  by_contra hnear
  refine hfar ⟨toIcoDiv h 0 angle, ?_⟩
  have hrest : angle - toIcoDiv h 0 angle * r.fullTurn = r.withinTurn angle := by
    rw [withinTurn_eq_toIcoMod h, ← zsmul_eq_mul, self_sub_toIcoDiv_zsmul]
  rw [hrest, abs_of_nonneg (withinTurn_mem h angle).1]
  exact not_le.mp hnear

/-- Unless the directions coincide, nothing but whole turns is left out of their difference. -/
theorem exists_turns (h : 0 < r.fullTurn) (hfar : ¬r.Whole angle) :
    ∃ turns : ℤ, angle = r.turned angle + turns * r.fullTurn := by
  refine ⟨toIcoDiv h 0 angle, ?_⟩
  rw [turned, if_neg (le_withinTurn_of_not_whole h hfar).not_gt, withinTurn_eq_toIcoMod h,
    ← zsmul_eq_mul, toIcoMod_add_toIcoDiv_zsmul]

/-- Both ways round together are one turn. -/
theorem withinTurn_neg (h : 0 < r.fullTurn) (hfar : ¬r.Whole angle) :
    r.withinTurn (-angle) = r.fullTurn - r.withinTurn angle := by
  have hneq : ¬0 ≡ angle [PMOD r.fullTurn] := by
    intro heq
    have hnone : r.withinTurn angle = 0 :=
      (withinTurn_eq_toIcoMod h angle).trans (heq.toIcoMod_eq_left h)
    have hsome := le_withinTurn_of_not_whole h hfar
    linarith
  rw [withinTurn_eq_toIcoMod h, withinTurn_eq_toIcoMod h, toIcoMod_neg, neg_zero,
    (AddCommGroup.not_modEq_iff_toIcoMod_eq_toIocMod h).mp hneq]

theorem turned_add_turned_neg (h : 0 < r.fullTurn) (hfar : ¬r.Whole angle) :
    r.turned angle + r.turned (-angle) = r.fullTurn := by
  have hfar' : ¬r.Whole (-angle) := fun hwhole => hfar (neg_neg angle ▸ hwhole.neg)
  rw [turned, turned, if_neg (le_withinTurn_of_not_whole h hfar).not_gt,
    if_neg (le_withinTurn_of_not_whole h hfar').not_gt, withinTurn_neg h hfar, add_sub_cancel]

end Ruler

/-! ## Lengths -/

/-- A line that leads elsewhere, or an arc that does not begin at its own centre. -/
def Move.Departs (origin : Point ℝ) : Move ℝ → Prop
  | .line target => origin ≠ target
  | .arc _ center _ => center ≠ origin

namespace Path

/-- Where the tool is after all moves of a path. -/
def finish {α : Type} (path : Path α) : Point α :=
  (path.moves.getLast?.map Move.target).getD path.start

/-- The first moves of a path. -/
def before {α : Type} (path : Path α) (n : ℕ) : Path α :=
  { path with moves := path.moves.take n }

/-- The other moves of a path, from where the first ones end. -/
def after {α : Type} (path : Path α) (n : ℕ) : Path α :=
  { path with start := (path.before n).finish, moves := path.moves.drop n }

theorem finish_cons {α : Type} (start : Point α) (move : Move α) (moves : List (Move α))
    (closed : Bool) :
    finish ⟨start, move :: moves, closed⟩ = finish ⟨move.target, moves, closed⟩ := by
  rw [finish, finish, List.getLast?_cons]
  cases moves.getLast? with
  | none => rfl
  | some last => rfl

theorem steps_split {α : Type} (path : Path α) (n : ℕ) :
    path.steps = (path.before n).steps ++ (path.after n).steps := by
  obtain ⟨start, moves, closed⟩ := path
  -- on the moves to be left out, for every start: the second part begins where the last one ends
  induction n generalizing start moves with
  | zero => rfl
  | succ n ih =>
    cases moves with
    | nil => rfl
    | cons move moves =>
        have hafter : (mk start (move :: moves) closed).after (n + 1) =
            (mk move.target moves closed).after n :=
          congrArg (mk · (moves.drop n) closed) (finish_cons start move (moves.take n) closed)
        rw [hafter]
        exact congrArg ((start, move) :: ·) (ih move.target moves)

/-- The length of a path is that of its moves. -/
theorem length_eq_sum (r : Ruler ℝ) (path : Path ℝ) :
    path.length r = (path.steps.map fun step => step.2.length r step.1).sum := by
  rw [List.sum_eq_foldl, List.foldl_map]
  exact congrArg (List.foldl _ · _) Nat.cast_zero

/-- What is cut before a move and what is cut from it on are all that is cut. -/
theorem length_split (r : Ruler ℝ) (path : Path ℝ) (n : ℕ) :
    path.length r = (path.before n).length r + (path.after n).length r := by
  rw [length_eq_sum, length_eq_sum, length_eq_sum, ← List.sum_append, ← List.map_append,
    ← steps_split]

end Path

section Lengths

variable {r : Ruler ℝ}

theorem Move.length_pos (h : 0 < r.fullTurn) (hdistance : ∀ p q, p ≠ q → 0 < r.distance p q)
    {origin : Point ℝ} {move : Move ℝ} (hdeparts : move.Departs origin) :
    0 < move.length r origin := by
  cases move with
  | line target => exact hdistance origin target hdeparts
  | arc target center turn =>
      have hsweep : ∀ first last, 0 < r.sweep turn first last := by
        intro first last
        rw [Ruler.sweep_eq_turned]
        exact Ruler.turned_pos h _
      exact mul_pos (hdistance center origin hdeparts) (hsweep _ _)

theorem Path.length_pos (h : 0 < r.fullTurn) (hdistance : ∀ p q, p ≠ q → 0 < r.distance p q)
    {path : Path ℝ} (hmoves : path.moves ≠ [])
    (hdeparts : ∀ step ∈ path.steps, step.2.Departs step.1) : 0 < path.length r := by
  rw [length_eq_sum]
  refine List.sum_pos _ (fun length hlength => ?_) fun hnone => hmoves ?_
  · obtain ⟨step, hstep, rfl⟩ := List.mem_map.mp hlength
    exact Move.length_pos h hdistance (hdeparts step hstep)
  · have hsteps := List.map_eq_nil_iff.mp hnone
    cases hcut : path.moves with
    | nil => rfl
    | cons move moves =>
        rw [steps, hcut] at hsteps
        cases hsteps

end Lengths

/--
**An arc turns through more than nothing and at most one turn.** The length of an arc is its
radius, times its sweep between the directions of its ends; that of a line is a distance, and
that of a path the sum over its moves. In exact numbers, whatever the two directions are, the
sweep is above zero and at most a full turn. It is the same if the arc is followed backwards.
Unless the directions coincide, or are nearer to each other than a thousand millionth, whole
turns left out, it is their difference up to whole turns, and the two ways round add up to one
turn; and if they are, each of them is that near to a full turn, so no arc is taken for a point.
A path of moves that lead anywhere thus has a length, and it is that of its parts wherever it is
parted.
-/
theorem Ruler.sweep_exact (r : Ruler ℝ) (hturn : 1 / 1000 < r.fullTurn) :
    (∀ origin target center turn, (Move.arc target center turn).length r origin =
      r.distance center origin * r.sweep turn (r.angle center origin) (r.angle center target)) ∧
    (∀ origin target, (Move.line target).length r origin = r.distance origin target) ∧
    (∀ path : Path ℝ, path.length r = (path.steps.map fun step => step.2.length r step.1).sum) ∧
    (∀ turn first last, 0 < r.sweep turn first last ∧ r.sweep turn first last ≤ r.fullTurn) ∧
    (∀ turn first last, r.sweep turn.opposite last first = r.sweep turn first last) ∧
    (∀ first last, ¬r.Whole (first - last) →
      (∃ turns : ℤ, first - last = r.sweep .clockwise first last + turns * r.fullTurn) ∧
      r.sweep .clockwise first last + r.sweep .counterclockwise first last = r.fullTurn) ∧
    (∀ first last, r.Whole (first - last) → ∀ turn,
      r.fullTurn - 1 / 10 ^ 9 ≤ r.sweep turn first last) ∧
    ((∀ p q, p ≠ q → 0 < r.distance p q) →
      ∀ path : Path ℝ, path.moves ≠ [] → (∀ step ∈ path.steps, step.2.Departs step.1) →
        0 < path.length r) ∧
    ∀ (path : Path ℝ) n, path.length r = (path.before n).length r + (path.after n).length r := by
  have hpos : 0 < r.fullTurn := by linarith
  refine ⟨fun origin target center turn => rfl, fun origin target => rfl, Path.length_eq_sum r,
    fun turn first last => ?_, fun turn first last => ?_, fun first last hfar => ?_,
    fun first last hwhole turn => ?_, fun hdistance path hmoves hdeparts =>
      Path.length_pos hpos hdistance hmoves hdeparts, Path.length_split r⟩
  · rw [sweep_eq_turned]
    exact ⟨turned_pos hpos _, turned_le hpos _⟩
  · cases turn with
    | clockwise => rfl
    | counterclockwise => rfl
  · rw [sweep_eq_turned, sweep_eq_turned]
    exact ⟨exists_turns hpos hfar, turned_add_turned_neg hpos hfar⟩
  · rw [sweep_eq_turned]
    cases turn with
    | clockwise => exact hwhole.le_turned hturn
    | counterclockwise => exact hwhole.neg.le_turned hturn

/-- Lengths and angles in real arithmetic. -/
noncomputable def Ruler.euclidean : Ruler ℝ where
  distance p q := √((p.x - q.x) ^ 2 + (p.y - q.y) ^ 2)
  angle p q := Complex.arg ⟨q.x - p.x, q.y - p.y⟩
  fullTurn := 2 * Real.pi

theorem Ruler.euclidean_distance_pos (p q : Point ℝ) (h : p ≠ q) :
    0 < euclidean.distance p q := by
  obtain ⟨px, py⟩ := p
  obtain ⟨qx, qy⟩ := q
  refine Real.sqrt_pos.mpr ?_
  by_cases hx : px = qx
  · have hy : py - qy ≠ 0 := fun hy => h (congrArg₂ Point.mk hx (sub_eq_zero.mp hy))
    exact add_pos_of_nonneg_of_pos (sq_nonneg _) (sq_pos_of_ne_zero hy)
  · exact add_pos_of_pos_of_nonneg (sq_pos_of_ne_zero (sub_ne_zero.mpr hx)) (sq_nonneg _)

theorem Ruler.euclidean_distance {p q : Point ℝ} {d : ℝ} (hd : 0 ≤ d)
    (h : (p.x - q.x) ^ 2 + (p.y - q.y) ^ 2 = d ^ 2) : euclidean.distance p q = d := by
  show √((p.x - q.x) ^ 2 + (p.y - q.y) ^ 2) = d
  rw [h, Real.sqrt_sq hd]

theorem Ruler.not_whole_quarter : ¬euclidean.Whole (0 - Real.pi / 2) := by
  intro hwhole
  obtain ⟨turns, hturns⟩ := hwhole
  have hpi := Real.two_le_pi
  have hquarters : 1 ≤ |(4 * turns + 1 : ℤ)| := Int.one_le_abs (by omega)
  have hquarters : (1 : ℝ) ≤ |4 * (turns : ℝ) + 1| := by exact_mod_cast hquarters
  have hdistance : |0 - Real.pi / 2 - turns * (2 * Real.pi)| =
      |4 * (turns : ℝ) + 1| * (Real.pi / 2) := by
    rw [← abs_neg, ← abs_of_pos (half_pos Real.pi_pos), ← abs_mul,
      abs_of_pos (half_pos Real.pi_pos)]
    exact congrArg _ (by ring)
  rw [show euclidean.fullTurn = 2 * Real.pi from rfl, hdistance] at hturns
  nlinarith

/-- A quarter of a turn both ways, the length of the short way with a line behind it, and that
of a circle. -/
theorem Ruler.sweep_exact_quarter :
    Ruler.euclidean.sweep .clockwise 0 (Real.pi / 2) = 3 * (Real.pi / 2) ∧
      Ruler.euclidean.sweep .counterclockwise 0 (Real.pi / 2) = Real.pi / 2 ∧
      Path.length Ruler.euclidean
        ⟨⟨2, 0⟩, [.arc ⟨0, 2⟩ ⟨0, 0⟩ .counterclockwise, .line ⟨0, 5⟩], false⟩ = Real.pi + 3 ∧
      2 * Real.pi - 1 / 10 ^ 9 ≤ Ruler.euclidean.sweep .clockwise 0 0 ∧
      0 < Path.length Ruler.euclidean ⟨⟨1, 0⟩, [.arc ⟨1, 0⟩ ⟨0, 0⟩ .clockwise], true⟩ := by
  have hpi := Real.pi_pos
  have hturn : 1 / 1000 < Ruler.euclidean.fullTurn := by
    show 1 / 1000 < 2 * Real.pi
    linarith [Real.two_le_pi]
  have hwhole : Ruler.euclidean.Whole (0 - 0) := ⟨0, by norm_num⟩
  obtain ⟨harc, hline, hsteps, hrange, -, hsum, hnear, hlength, -⟩ :=
    Ruler.sweep_exact Ruler.euclidean hturn
  obtain ⟨⟨turns, hturns⟩, hboth⟩ := hsum 0 (Real.pi / 2) Ruler.not_whole_quarter
  obtain ⟨hpos, hle⟩ := hrange .clockwise 0 (Real.pi / 2)
  rw [show Ruler.euclidean.fullTurn = 2 * Real.pi from rfl] at hturns hboth hle
  -- the long way is the only one of all angles in question that is within one turn
  have hone : turns = -1 := by
    have hlow : (turns : ℝ) < 0 := by nlinarith
    have hhigh : (-2 : ℝ) < turns := by nlinarith
    have hlow : turns < 0 := by exact_mod_cast hlow
    have hhigh : -2 < turns := by exact_mod_cast hhigh
    omega
  rw [hone] at hturns
  push_cast at hturns
  have hlong : Ruler.euclidean.sweep .clockwise 0 (Real.pi / 2) = 3 * (Real.pi / 2) := by linarith
  have hshort : Ruler.euclidean.sweep .counterclockwise 0 (Real.pi / 2) = Real.pi / 2 := by
    linarith
  refine ⟨hlong, hshort, ?_, hnear _ _ hwhole .clockwise,
    hlength Ruler.euclidean_distance_pos _ (List.cons_ne_nil _ _) ?_⟩
  · have hradius : Ruler.euclidean.distance ⟨0, 0⟩ ⟨2, 0⟩ = 2 :=
      Ruler.euclidean_distance (by norm_num) (by norm_num)
    have hrest : Ruler.euclidean.distance ⟨0, 2⟩ ⟨0, 5⟩ = 3 :=
      Ruler.euclidean_distance (by norm_num) (by norm_num)
    have hfirst : Ruler.euclidean.angle ⟨0, 0⟩ ⟨2, 0⟩ = 0 :=
      Complex.arg_eq_zero_iff.mpr ⟨by norm_num, by norm_num⟩
    have hlast : Ruler.euclidean.angle ⟨0, 0⟩ ⟨0, 2⟩ = Real.pi / 2 :=
      Complex.arg_eq_pi_div_two_iff.mpr ⟨by norm_num, by norm_num⟩
    rw [hsteps]
    show Move.length _ _ (.arc _ _ _) + (Move.length _ ⟨0, 2⟩ (.line _) + 0) = _
    rw [harc, hline, hradius, hrest, hfirst, hlast, hshort]
    ring
  · intro step hstep
    obtain rfl := List.mem_singleton.mp hstep
    exact fun heq => zero_ne_one (congrArg Point.x heq)

end Milling

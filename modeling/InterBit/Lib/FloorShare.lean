import Mathlib.Tactic.Linarith
import Mathlib.Tactic.Ring

/-!
# Shares and exchanges that are rounded down

A pool of `R` that is divided into `T` parts gives `share q R T` for `q` parts, and an exchange
at a constant product pays `payout net rin rout`. Both are rounded down.

What rounding does to those who stay: if parts are taken out, nobody else loses
(`share_le_of_withdrawal`). If `l` parts are added for what they are worth, somebody with `q`
parts may lose; `share_le_iff_of_deposit` says exactly when not.
-/

namespace InterBit.Lib

/-- What `q` of `T` parts of `R` are worth. -/
def share (q R T : Nat) : Nat := q * R / T

theorem share_le {q T : Nat} (R : Nat) (h : q ≤ T) : share q R T ≤ R :=
  Nat.div_le_of_le_mul (Nat.mul_le_mul_right R h)

theorem share_lt {q R T : Nat} (h : q < T) (hR : 0 < R) : share q R T < R :=
  Nat.div_lt_of_lt_mul (Nat.mul_lt_mul_of_pos_right h hR)

theorem share_mono (q T : Nat) {R R' : Nat} (h : R ≤ R') : share q R T ≤ share q R' T :=
  Nat.div_le_div_right (Nat.mul_le_mul_left q h)

theorem share_mul_le (q R T : Nat) : share q R T * T ≤ q * R := Nat.div_mul_le_self ..

/-- Adding `l` parts for what they are worth leaves the worth of `q` parts as it is at least,
exactly if what the deposit has been spared by rounding is no more than what `q` parts have lost
by it. -/
theorem share_le_iff_of_deposit {T : Nat} (hT : 0 < T) (q l R : Nat) :
    share q R T ≤ share q (R + share l R T) (T + l) ↔
      q * (l * R % T) ≤ (q * R % T) * (T + l) := by
  have hq : share q R T * T + q * R % T = q * R := Nat.div_add_mod' ..
  have hl : share l R T * T + l * R % T = l * R := Nat.div_add_mod' ..
  generalize hu : share q R T = u at hq ⊢
  generalize share l R T = v at hl ⊢
  generalize q * R % T = r at hq ⊢
  generalize l * R % T = s at hl ⊢
  rw [share, Nat.le_div_iff_mul_le (by omega)]
  -- Both sides say the same, multiplied by the number of parts.
  have hkey : q * (R + v) * T + q * s = u * (T + l) * T + r * (T + l) := by
    have hql : q * (v * T + s) = q * (l * R) := congrArg (q * ·) hl
    have hlq : l * (u * T + r) = l * (q * R) := congrArg (l * ·) hq
    have hTq : T * (u * T + r) = T * (q * R) := congrArg (T * ·) hq
    linarith
  constructor
  · intro h
    have hmul := Nat.mul_le_mul_right T h
    omega
  · intro h
    refine Nat.le_of_mul_le_mul_right ?_ hT
    omega

/-- `l` parts that have been added for what they are worth are not worth more afterwards. -/
theorem share_le_of_added {T : Nat} (hT : 0 < T) (l R : Nat) :
    share l (R + share l R T) (T + l) ≤ share l R T := by
  have hlt : l * R < T * (share l R T + 1) := Nat.lt_mul_div_succ _ hT
  generalize share l R T = v at hlt ⊢
  rw [share, Nat.div_le_iff_le_mul_add_pred (by omega)]
  have htotal : (T + l) * v = T * v + l * v := Nat.add_mul ..
  have hone : T * (v + 1) = T * v + T := Nat.mul_succ ..
  have hadd : l * (R + v) = l * R + l * v := Nat.mul_add ..
  omega

/-- As many parts as an amount buys, rounded down, are not worth more than the amount. -/
theorem share_le_of_bought {l a R T : Nat} (hR : 0 < R) (h : l ≤ a * T / R) : share l R T ≤ a :=
  Nat.div_le_of_le_mul (by
    rw [Nat.mul_comm T]
    exact (Nat.le_div_iff_mul_le hR).mp h)

/-- All parts are worth all there is. -/
theorem share_self {T : Nat} (hT : 0 < T) (R : Nat) : share T R T = R :=
  Nat.mul_div_cancel_left R hT

/-- Taking out `l` parts for what they are worth takes nothing from `q` others. -/
theorem share_le_of_withdrawal {q l T : Nat} (R : Nat) (h : q + l ≤ T) :
    share q R T ≤ share q (R - share l R T) (T - l) := by
  rcases Nat.eq_zero_or_pos (T - l) with hnone | hleft
  · -- Nothing is left for others, who have nothing.
    have hq : q = 0 := by omega
    rw [hq, share, Nat.zero_mul, Nat.zero_div]
    exact Nat.zero_le _
  · have hu := share_mul_le q R T
    have hv := share_mul_le l R T
    have hle : share l R T ≤ R := share_le R (by omega)
    generalize share q R T = u at hu ⊢
    generalize share l R T = v at hv hle ⊢
    obtain ⟨rest, hrest⟩ := Nat.exists_eq_add_of_le hle
    obtain ⟨left, hT⟩ := Nat.exists_eq_add_of_le (show l ≤ T by omega)
    have hT0 : 0 < T := by omega
    rw [share, Nat.le_div_iff_mul_le hleft, hrest, Nat.add_sub_cancel_left, hT,
      Nat.add_sub_cancel_left]
    refine Nat.le_of_mul_le_mul_right ?_ hT0
    calc u * left * T = u * T * left := by ring
      _ ≤ q * R * left := Nat.mul_le_mul_right _ hu
      _ ≤ q * rest * T := by
          have hqv := Nat.mul_le_mul_left q hv
          rw [hrest, hT] at hqv ⊢
          nlinarith only [hqv]

/-- What an exchange at a constant product pays for an amount after the fee. -/
def payout (net rin rout : Nat) : Nat := net * rout / (rin + net)

theorem payout_le (net rin rout : Nat) : payout net rin rout ≤ rout :=
  Nat.div_le_of_le_mul (Nat.mul_le_mul_right _ (Nat.le_add_left ..))

theorem payout_lt (net : Nat) {rin rout : Nat} (hin : 0 < rin) (hout : 0 < rout) :
    payout net rin rout < rout :=
  Nat.div_lt_of_lt_mul (Nat.mul_lt_mul_of_pos_right (by omega) hout)

/-- The product does not go down if at least the amount after the fee is paid in. -/
theorem product_le_of_payout {net paid : Nat} (rin rout : Nat) (h : net ≤ paid) :
    rin * rout ≤ (rin + paid) * (rout - payout net rin rout) := by
  have hpaid : payout net rin rout * (rin + net) ≤ net * rout := Nat.div_mul_le_self ..
  have hle := payout_le net rin rout
  generalize payout net rin rout = out at hpaid hle
  obtain ⟨rest, rfl⟩ := Nat.exists_eq_add_of_le hle
  rw [Nat.add_sub_cancel_left]
  calc rin * (out + rest) ≤ (rin + net) * rest := by nlinarith only [hpaid]
    _ ≤ (rin + paid) * rest := Nat.mul_le_mul_right _ (by omega)

end InterBit.Lib

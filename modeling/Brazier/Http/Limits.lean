import Brazier.ProofLib.Checked
import Brazier.Text
import Mathlib.Tactic.Linarith

/-!
# The limits that are computed from the memory

`compute_max_body_size` and `compute_max_header_size` of `src/HttpsServerConfig.cpp` give each
connection its part of a budget, which is a percentage of the memory. They differ in the percentage
and in the bounds. A step that leaves the range of 64 bits, and a division by zero, has no result.
-/

namespace Brazier

open ProofLib

namespace HttpsServer

/-- What both compute. -/
def computeMaxSize (budgetPct minSize maxCap : Int) (ramMb maxConn : Int) : Option Int := do
  let maxConn := if maxConn ≤ 0 then 1 else maxConn
  let ramKb ← mul64 ramMb 1024
  let ramBytes ← mul64 ramKb 1024
  let scaled ← mul64 ramBytes budgetPct
  let budget ← div64 scaled 100
  let perConn ← div64 budget maxConn
  let perConn := if perConn < minSize then minSize else perConn
  let perConn := if perConn > maxCap then maxCap else perConn
  return wrapInt perConn

/-- `compute_max_body_size`. -/
def computeMaxBodySize : Int → Int → Option Int :=
  computeMaxSize 25 (64 * 1024) (16 * 1024 * 1024)

/-- `compute_max_header_size`. -/
def computeMaxHeaderSize : Int → Int → Option Int :=
  computeMaxSize 1 (4 * 1024) (32 * 1024)

/-- A limit that is computed from every amount of memory and every number of connections, stays
within its bounds, grows with the memory and shrinks with the connections. Above its lower bound the
connections together stay within the percentage of the memory. -/
structure SafeLimit (compute : Int → Int → Option Int) (budgetPct minSize maxCap : Int) : Prop where
  in_range : ∀ ramMb maxConn, IsInt ramMb → IsInt maxConn →
    ∃ size, compute ramMb maxConn = some size ∧ minSize ≤ size ∧ size ≤ maxCap
  mono_ram : ∀ ramMb ramMb' maxConn size size', IsInt ramMb → IsInt ramMb' → IsInt maxConn →
    ramMb ≤ ramMb' → compute ramMb maxConn = some size → compute ramMb' maxConn = some size' →
    size ≤ size'
  anti_conn : ∀ ramMb maxConn maxConn' size size', IsInt ramMb → IsInt maxConn → IsInt maxConn' →
    maxConn ≤ maxConn' → compute ramMb maxConn = some size → compute ramMb maxConn' = some size' →
    size' ≤ size
  within_budget : ∀ ramMb maxConn size, IsInt ramMb → IsInt maxConn → 0 ≤ ramMb → 1 ≤ maxConn →
    compute ramMb maxConn = some size → minSize < size →
    100 * (maxConn * size) ≤ budgetPct * (ramMb * 1024 * 1024)

/-! ## What is computed -/

/-- The guard against a number of connections that is not positive. -/
def guarded (maxConn : Int) : Int := max 1 maxConn

/-- The part of the budget for each connection. -/
def perConnection (budgetPct ramMb maxConn : Int) : Int :=
  ((ramMb * 1024 * 1024 * budgetPct).tdiv 100).tdiv (guarded maxConn)

section Computed

variable {budgetPct minSize maxCap ramMb maxConn : Int}

theorem guarded_pos (maxConn : Int) : 0 < guarded maxConn :=
  lt_of_lt_of_le Int.one_pos (le_max_left 1 maxConn)

/-- A product with a percentage of the memory fits, and so does everything on the way. -/
theorem computeMaxSize_eq (hram : IsInt ramMb) (hpct : 0 ≤ budgetPct) (hpct' : budgetPct ≤ 100)
    (hmin : 0 ≤ minSize) (hle : minSize ≤ maxCap) (hmax : maxCap < 2 ^ 31) :
    computeMaxSize budgetPct minSize maxCap ramMb maxConn =
      some (min maxCap (max minSize (perConnection budgetPct ramMb maxConn))) := by
  obtain ⟨hlow, hhigh⟩ := hram
  have hkb : IsInt64 (ramMb * 1024) := ⟨by omega, by omega⟩
  have hbytes : IsInt64 (ramMb * 1024 * 1024) := ⟨by omega, by omega⟩
  have hscaled : IsInt64 (ramMb * 1024 * 1024 * budgetPct) := by
    constructor <;> nlinarith
  have hbudget : IsInt64 ((ramMb * 1024 * 1024 * budgetPct).tdiv 100) := hscaled.tdiv (by decide)
  have hguard : (if maxConn ≤ 0 then 1 else maxConn) = guarded maxConn := by
    rw [guarded]
    omega
  have hclamp : ∀ perConn : Int,
      (if (if perConn < minSize then minSize else perConn) > maxCap then maxCap
        else if perConn < minSize then minSize else perConn) =
      min maxCap (max minSize perConn) := by
    intro perConn
    omega
  have hfits : IsInt (min maxCap (max minSize (perConnection budgetPct ramMb maxConn))) := by
    constructor <;> omega
  rw [computeMaxSize, hguard, mul64_of_isInt64 hkb]
  dsimp only [Option.bind_eq_bind, Option.bind_some, Option.pure_def]
  rw [mul64_of_isInt64 hbytes]
  dsimp only [Option.bind_some]
  rw [mul64_of_isInt64 hscaled]
  dsimp only [Option.bind_some]
  rw [div64_of_pos hscaled (by decide)]
  dsimp only [Option.bind_some]
  rw [div64_of_pos hbudget (guarded_pos maxConn)]
  dsimp only [Option.bind_some]
  rw [hclamp]
  exact congrArg some ((wrapInt_eq_iff _).mpr hfits)

/-- More memory gives each connection no less. -/
theorem perConnection_mono {ramMb' : Int} (hpct : 0 ≤ budgetPct) (hram : ramMb ≤ ramMb')
    (maxConn : Int) :
    perConnection budgetPct ramMb maxConn ≤ perConnection budgetPct ramMb' maxConn := by
  refine Int.tdiv_le_tdiv (guarded_pos maxConn) (Int.tdiv_le_tdiv (by decide) ?_)
  have hbytes : ramMb * 1024 * 1024 ≤ ramMb' * 1024 * 1024 := by omega
  exact Int.mul_le_mul_of_nonneg_right hbytes hpct

/-- More connections get no more each, unless what they get is negative. -/
theorem perConnection_anti {maxConn' : Int} (hconn : maxConn ≤ maxConn') :
    perConnection budgetPct ramMb maxConn' ≤ max 0 (perConnection budgetPct ramMb maxConn) := by
  rw [perConnection, perConnection]
  generalize (ramMb * 1024 * 1024 * budgetPct).tdiv 100 = budget
  have hle : guarded maxConn ≤ guarded maxConn' := by
    rw [guarded, guarded]
    omega
  have hpos := guarded_pos maxConn
  have hpos' := guarded_pos maxConn'
  rcases Int.le_total 0 budget with hnonneg | hnonpos
  · refine le_max_of_le_right ?_
    rw [Int.tdiv_eq_ediv_of_nonneg hnonneg, Int.tdiv_eq_ediv_of_nonneg hnonneg]
    refine Int.le_ediv_of_mul_le hpos ?_
    calc budget / guarded maxConn' * guarded maxConn
        ≤ budget / guarded maxConn' * guarded maxConn' :=
          Int.mul_le_mul_of_nonneg_left hle (Int.ediv_nonneg hnonneg hpos'.le)
      _ ≤ budget := Int.ediv_mul_le budget hpos'.ne'
  · refine le_max_of_le_left ?_
    have hopposite := Int.tdiv_nonneg (Int.neg_nonneg_of_nonpos hnonpos) hpos'.le
    rw [Int.neg_tdiv] at hopposite
    omega

/-- The connections together get at most the percentage of the memory. -/
theorem perConnection_le (hpct : 0 ≤ budgetPct) (hram : 0 ≤ ramMb) (hconn : 1 ≤ maxConn) :
    100 * (maxConn * perConnection budgetPct ramMb maxConn) ≤
      budgetPct * (ramMb * 1024 * 1024) := by
  have hguard : guarded maxConn = maxConn := max_eq_right hconn
  have hscaled : 0 ≤ ramMb * 1024 * 1024 * budgetPct := Int.mul_nonneg (by omega) hpct
  rw [perConnection, hguard, Int.tdiv_eq_ediv_of_nonneg hscaled,
    Int.tdiv_eq_ediv_of_nonneg (Int.ediv_nonneg hscaled (by decide)), Int.mul_comm budgetPct]
  generalize ramMb * 1024 * 1024 * budgetPct = scaled
  have hbudget := Int.ediv_mul_le scaled (b := 100) (by decide)
  have hparts := Int.ediv_mul_le (scaled / 100) (b := maxConn) (by omega)
  rw [Int.mul_comm maxConn]
  omega

/-- With a percentage up to 100 and bounds that are not negative, what is computed is safe. -/
theorem safeLimit_computeMaxSize (hpct : 0 ≤ budgetPct) (hpct' : budgetPct ≤ 100)
    (hmin : 0 ≤ minSize) (hle : minSize ≤ maxCap) (hmax : maxCap < 2 ^ 31) :
    SafeLimit (computeMaxSize budgetPct minSize maxCap) budgetPct minSize maxCap := by
  have heq : ∀ {ramMb size} (maxConn : Int), IsInt ramMb →
      computeMaxSize budgetPct minSize maxCap ramMb maxConn = some size →
      size = min maxCap (max minSize (perConnection budgetPct ramMb maxConn)) := by
    intro ramMb size maxConn hram hsize
    rw [computeMaxSize_eq hram hpct hpct' hmin hle hmax] at hsize
    exact (Option.some.inj hsize).symm
  constructor
  · intro ramMb maxConn hram _
    refine ⟨_, computeMaxSize_eq hram hpct hpct' hmin hle hmax, ?_, ?_⟩
    · exact le_min hle (le_max_left _ _)
    · exact min_le_left _ _
  · intro ramMb ramMb' maxConn size size' hram hram' _ hmore hsize hsize'
    rw [heq maxConn hram hsize, heq maxConn hram' hsize']
    have hmono := perConnection_mono hpct hmore maxConn
    omega
  · intro ramMb maxConn maxConn' size size' hram _ _ hmore hsize hsize'
    rw [heq maxConn hram hsize, heq maxConn' hram hsize']
    have hanti : perConnection budgetPct ramMb maxConn' ≤
        max 0 (perConnection budgetPct ramMb maxConn) := perConnection_anti hmore
    omega
  · intro ramMb maxConn size hram _ hnonneg hconn hsize habove
    have hsize' := heq maxConn hram hsize
    have hle' : size ≤ perConnection budgetPct ramMb maxConn := by omega
    have hbudget := perConnection_le hpct hnonneg hconn
    have hproduct := Int.mul_le_mul_of_nonneg_left hle' (show (0 : Int) ≤ maxConn by omega)
    omega

end Computed

theorem safeLimit_computeMaxBodySize :
    SafeLimit computeMaxBodySize 25 (64 * 1024) (16 * 1024 * 1024) :=
  safeLimit_computeMaxSize (by decide) (by decide) (by decide) (by decide) (by decide)

theorem safeLimit_computeMaxHeaderSize :
    SafeLimit computeMaxHeaderSize 1 (4 * 1024) (32 * 1024) :=
  safeLimit_computeMaxSize (by decide) (by decide) (by decide) (by decide) (by decide)

/-- The limits of bodies and headers are safe, within 25 and 1 percent of the memory. -/
theorem memory_limits_safe :
    SafeLimit computeMaxBodySize 25 (64 * 1024) (16 * 1024 * 1024) ∧
      SafeLimit computeMaxHeaderSize 1 (4 * 1024) (32 * 1024) :=
  ⟨safeLimit_computeMaxBodySize, safeLimit_computeMaxHeaderSize⟩

end HttpsServer

end Brazier

import Brazier.Config.Getters
import Brazier.Http.Limits
import Brazier.ProofLib.TableJson

/-!
# The limits of a server

`load_limits_from_config` takes each limit from the configuration or derives it. The number of
connections is derived from the number of files that the process may open: that number is narrowed
to an `int` and multiplied before it is divided, so only its lowest 29 bits count. What is derived
is a positive number when these are at least 2 and the topmost of them is not set.
-/

namespace Brazier

open ProofLib

/-- A number that fits an `int`. -/
abbrev CInt := {x : Int // IsInt x}

/-- `0` of type `int`. -/
def CInt.zero : CInt := ⟨0, by decide⟩

/-- What `getrlimit(RLIMIT_NOFILE)` gives: two `rlim_t` of 64 bits, the first one not above the
second. -/
structure RLimit where
  rlimCur : Nat
  rlimMax : Nat
  cur_le_max : rlimCur ≤ rlimMax
  max_lt : rlimMax < 2 ^ 64

/-- What `sysinfo` gives. -/
structure SysInfo where
  totalram : Nat
  memUnit : Nat

namespace Platform

/-- `RLIM_INFINITY`. -/
def rlimInfinity : Nat := 2 ^ 64 - 1

/-- `get_fd_limit` on Linux. Without a result `getrlimit` has failed. -/
def getFdLimit : Option RLimit → Int
  | none => 1024
  | some rl =>
      if rl.rlimCur = rlimInfinity then
        if rl.rlimMax = rlimInfinity then 65536 else castInt rl.rlimMax
      else castInt rl.rlimCur

/-- `get_system_memory_mb` on Linux. Without a result `sysinfo` has failed. -/
def getSystemMemoryMb : Option SysInfo → Int
  | none => 1024
  | some si => castInt (si.totalram * si.memUnit % 2 ^ 64 / (1024 * 1024))

end Platform

namespace HttpsServer

/-- `max_connections_`, `max_body_size_` and `max_header_size_`. -/
structure Limits where
  maxConnections : Int
  maxBodySize : Int
  maxHeaderSize : Int

section Load

variable {ν : Type} (J : JsonText ν) (int : ConfigManager.Conversion ν CInt)
  (globalConfig : ConfigManager)

/-- `global_config->get(key, 0)`. -/
def getInt (key : Text) : Int :=
  (ConfigManager.get J (.converted int) globalConfig key CInt.zero).1

/-- A limit: the value for tests, the value of the configuration, or the derived one. -/
def limitOr (testing : Int) (key : Text) (derived : Option Int) : Option Int :=
  if testing > 0 then some testing
  else
    let v := getInt J int globalConfig key
    if v > 0 then some v else derived

/-- `load_limits_from_config`, with what the system says. -/
def loadLimitsFromConfig (rlimit : Option RLimit) (sysinfo : Option SysInfo) : Option Limits := do
  let ramMb := Platform.getSystemMemoryMb sysinfo
  let testingConn := getInt J int globalConfig "protocol.max_connections_testing"
  let testingBody := getInt J int globalConfig "protocol.max_body_size_testing"
  let testingHdr := getInt J int globalConfig "protocol.max_header_size_testing"
  let fdLimit := Platform.getFdLimit rlimit
  let maxConnections ← limitOr J int globalConfig testingConn "protocol.max_connections"
    (some ((wrapInt (fdLimit * 8)).tdiv 10))
  let maxBodySize ← limitOr J int globalConfig testingBody "protocol.max_body_size"
    (computeMaxBodySize ramMb maxConnections)
  let maxHeaderSize ← limitOr J int globalConfig testingHdr "protocol.max_header_size"
    (computeMaxHeaderSize ramMb maxConnections)
  return { maxConnections, maxBodySize, maxHeaderSize }

/-- The configuration has no limit of the connections: none, or none that is positive. -/
structure NoExplicitLimit : Prop where
  testing : getInt J int globalConfig "protocol.max_connections_testing" ≤ 0
  explicit : getInt J int globalConfig "protocol.max_connections" ≤ 0

end Load

/-! ## What is derived -/

/-- The derived number of connections. -/
def derivedConnections (fdLimit : Int) : Int := (wrapInt (fdLimit * 8)).tdiv 10

/-- A 32-bit number. -/
theorem isInt_wrapInt (x : Int) : IsInt (wrapInt x) := by
  rw [wrapInt_eq]
  constructor <;> omega

theorem isInt_castInt (size : Nat) : IsInt (castInt size) := isInt_wrapInt size

/-- A tenth, truncated towards zero. -/
theorem tdiv_ten (x : Int) : x.tdiv 10 = if 0 ≤ x then x / 10 else -(-x / 10) := by
  split
  · next hnonneg => exact Int.tdiv_eq_ediv_of_nonneg hnonneg
  · next hneg =>
      have hopposite : 0 ≤ -x := by omega
      rw [← Int.tdiv_eq_ediv_of_nonneg hopposite, Int.neg_tdiv, Int.neg_neg]

/-- A tenth fits where the number does. -/
theorem isInt_tdiv_ten {x : Int} (h : IsInt x) : IsInt (x.tdiv 10) := by
  obtain ⟨hlow, hhigh⟩ := h
  rw [tdiv_ten]
  constructor <;> omega

/-- Eight times a limit, wrapped, depends on the lowest 29 bits of the limit. -/
theorem wrapInt_castInt_mul (limit : Nat) :
    wrapInt (castInt limit * 8) =
      if limit % 2 ^ 29 < 2 ^ 28 then ((limit % 2 ^ 29 * 8 : Nat) : Int)
      else ((limit % 2 ^ 29 * 8 : Nat) : Int) - 2 ^ 32 := by
  rw [wrapInt_eq, castInt_eq]
  omega

/-- The limit of a process with a limit. -/
theorem getFdLimit_eq (rl : RLimit) :
    Platform.getFdLimit (some rl) =
      if rl.rlimCur = Platform.rlimInfinity then 65536 else castInt rl.rlimCur := by
  rw [Platform.getFdLimit]
  split
  · next hcur =>
      have hle := rl.cur_le_max
      have hlt := rl.max_lt
      have hmax : rl.rlimMax = Platform.rlimInfinity := by
        rw [Platform.rlimInfinity] at hcur ⊢
        omega
      rw [if_pos hmax]
  · rfl

/-- The derived number is positive and at most four fifths of the limit exactly when the limit is
infinite, or its lowest 29 bits are a number of at least 2 with 28 bits. -/
theorem derivedConnections_iff (rl : RLimit) :
    0 < derivedConnections (Platform.getFdLimit (some rl)) ∧
        10 * derivedConnections (Platform.getFdLimit (some rl)) ≤ 8 * rl.rlimCur ↔
      rl.rlimCur = Platform.rlimInfinity ∨
        2 ≤ rl.rlimCur % 2 ^ 29 ∧ rl.rlimCur % 2 ^ 29 < 2 ^ 28 := by
  rw [getFdLimit_eq]
  split
  · next hinf =>
      have hderived : derivedConnections 65536 = 52428 := rfl
      rw [hderived, hinf]
      exact iff_of_true ⟨by decide, by decide⟩ (Or.inl rfl)
  · next hfinite =>
      rw [derivedConnections, wrapInt_castInt_mul, tdiv_ten]
      omega

/-- Without explicit limits the derived number is loaded, and the other limits are computed from
it. -/
theorem loadLimits_maxConnections {ν : Type} {J : JsonText ν}
    {int : ConfigManager.Conversion ν CInt} {globalConfig : ConfigManager}
    (h : NoExplicitLimit J int globalConfig)
    (rlimit : Option RLimit) (sysinfo : Option SysInfo) :
    ∃ limits, loadLimitsFromConfig J int globalConfig rlimit sysinfo = some limits ∧
      limits.maxConnections = derivedConnections (Platform.getFdLimit rlimit) := by
  have hderived : IsInt (derivedConnections (Platform.getFdLimit rlimit)) :=
    isInt_tdiv_ten (isInt_wrapInt _)
  have hram : IsInt (Platform.getSystemMemoryMb sysinfo) := by
    cases sysinfo with
    | none => decide
    | some si => exact isInt_castInt _
  have hconn : limitOr J int globalConfig
      (getInt J int globalConfig "protocol.max_connections_testing") "protocol.max_connections"
        (some (derivedConnections (Platform.getFdLimit rlimit))) =
      some (derivedConnections (Platform.getFdLimit rlimit)) := by
    have htesting := h.testing
    have hexplicit := h.explicit
    rw [limitOr, if_neg (by omega)]
    exact if_neg (by omega)
  -- a limit of the configuration, or one that is computed
  have hsome : ∀ testing key (size : Int), ∃ limit,
      limitOr J int globalConfig testing key (some size) = some limit := by
    intro testing key size
    rw [limitOr]
    dsimp only
    split
    · exact ⟨_, rfl⟩
    · split
      · exact ⟨_, rfl⟩
      · exact ⟨_, rfl⟩
  obtain ⟨body, hbody, _⟩ := safeLimit_computeMaxBodySize.in_range _ _ hram hderived
  obtain ⟨header, hheader, _⟩ := safeLimit_computeMaxHeaderSize.in_range _ _ hram hderived
  obtain ⟨maxBodySize, hmaxBody⟩ := hsome
    (getInt J int globalConfig "protocol.max_body_size_testing") "protocol.max_body_size" body
  obtain ⟨maxHeaderSize, hmaxHeader⟩ := hsome
    (getInt J int globalConfig "protocol.max_header_size_testing") "protocol.max_header_size" header
  refine ⟨⟨_, maxBodySize, maxHeaderSize⟩, ?_, rfl⟩
  rw [loadLimitsFromConfig]
  show (limitOr J int globalConfig _ _ (some (derivedConnections _))).bind _ = _
  rw [hconn, Option.bind_some, hbody]
  show (limitOr J int globalConfig _ _ (some body)).bind _ = _
  rw [hmaxBody, Option.bind_some, hheader]
  show (limitOr J int globalConfig _ _ (some header)).bind _ = _
  rw [hmaxHeader]
  rfl

/-- Without explicit limits `load_limits_from_config` admits a positive number of connections that
is at most four fifths of the soft limit exactly when that is infinite, or its lowest 29 bits are
a number of at least 2 with 28 bits. -/
theorem derived_limit_iff {ν : Type} (J : JsonText ν) (int : ConfigManager.Conversion ν CInt)
    (globalConfig : ConfigManager) (h : NoExplicitLimit J int globalConfig) (rl : RLimit)
    (sysinfo : Option SysInfo) :
    (∃ limits, loadLimitsFromConfig J int globalConfig (some rl) sysinfo = some limits ∧
      0 < limits.maxConnections ∧ 10 * limits.maxConnections ≤ 8 * rl.rlimCur) ↔
    rl.rlimCur = Platform.rlimInfinity ∨
      2 ≤ rl.rlimCur % 2 ^ 29 ∧ rl.rlimCur % 2 ^ 29 < 2 ^ 28 := by
  obtain ⟨limits, hlimits, hconn⟩ := loadLimits_maxConnections h (some rl) sysinfo
  rw [← derivedConnections_iff rl, ← hconn, hlimits]
  simp

/-- A number is an `int`. -/
def numberConversion : ConfigManager.Conversion CInt CInt where
  toJson v := Ordered.leaf (.other v)
  fromJson j :=
    match j.1 with
    | .leaf (.other v) => some v
    | _ => none
  fromJson_toJson _ := rfl

/-- A configuration without entries. -/
theorem noExplicitLimit_empty :
    NoExplicitLimit (Table.empty CInt).jsonText numberConversion ConfigManager.empty where
  testing := by decide +kernel
  explicit := by decide +kernel

/-- The usual soft limit. -/
def usualLimit : RLimit := ⟨1024, 4096, by decide, by decide⟩

theorem derived_limit_usual :
    ∃ limits, loadLimitsFromConfig (Table.empty CInt).jsonText numberConversion
        ConfigManager.empty (some usualLimit) none = some limits ∧
      0 < limits.maxConnections ∧ 10 * limits.maxConnections ≤ 8 * usualLimit.rlimCur :=
  (derived_limit_iff (Table.empty CInt).jsonText numberConversion ConfigManager.empty
    noExplicitLimit_empty usualLimit none).mpr (Or.inr (by decide))

/-- The limit of a container runtime. -/
def containerLimit : RLimit := ⟨2 ^ 30, 2 ^ 30, by decide, by decide⟩

/-- A limit of which the lowest 29 bits are zero: no connection is admitted. -/
theorem container_limit_zero :
    NoExplicitLimit (Table.empty CInt).jsonText numberConversion ConfigManager.empty ∧
    2 ≤ containerLimit.rlimCur ∧
    (∃ limits, loadLimitsFromConfig (Table.empty CInt).jsonText numberConversion
        ConfigManager.empty (some containerLimit) none = some limits ∧
      limits.maxConnections = 0) ∧
    ¬ ∃ limits, loadLimitsFromConfig (Table.empty CInt).jsonText numberConversion
        ConfigManager.empty (some containerLimit) none = some limits ∧
      0 < limits.maxConnections ∧ 10 * limits.maxConnections ≤ 8 * containerLimit.rlimCur := by
  obtain ⟨limits, hlimits, hconn⟩ :=
    loadLimits_maxConnections noExplicitLimit_empty (some containerLimit) none
  have hzero : limits.maxConnections = 0 := hconn.trans (by decide)
  refine ⟨noExplicitLimit_empty, by decide, ⟨limits, hlimits, hzero⟩, ?_⟩
  rw [hlimits]
  simp [hzero]

end HttpsServer

end Brazier

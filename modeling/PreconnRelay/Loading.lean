import Mathlib.Algebra.GroupWithZero.Nat
import Mathlib.Algebra.Ring.Int.Defs
import PreconnRelay.Config
import PreconnRelay.Foundation.Decimal
import PreconnRelay.Foundation.Overrides

/-! Loading of the configuration: the file or the defaults, then the environment,
then the command line, then `validate`. What the TOML reader and the command line
parser return is a parameter; the environment gives a variable's text where it is
set to Unicode. -/

namespace PreconnRelay

def parseU8 (text : String) : Option UInt8 :=
  (Decimal.unsigned (2 ^ 8 - 1) text.toList).map UInt8.ofNat

def parseU16 (text : String) : Option UInt16 :=
  (Decimal.unsigned (2 ^ 16 - 1) text.toList).map UInt16.ofNat

def parseU64 (text : String) : Option UInt64 :=
  (Decimal.unsigned (2 ^ 64 - 1) text.toList).map UInt64.ofNat

def parseUsize (text : String) : Option Nat :=
  Decimal.unsigned (2 ^ 64 - 1) text.toList

def parseI32 (text : String) : Option Int :=
  Decimal.signed (2 ^ 31 - 1) text.toList

def parseBool (text : String) : Option Bool :=
  if text ∈ ["0", "false", "no", "off"] then some false
  else if text ∈ ["1", "true", "yes", "on"] then some true
  else none

namespace Config

def applyEnvString (name : String) (target : Field Config String) : Setting Config :=
  ⟨name, String, target, some, id⟩

def applyEnvU16 (name : String) (target : Field Config UInt16) : Setting Config :=
  ⟨name, UInt16, target, parseU16, fun v => v.toNat.repr⟩

def applyEnvU64 (name : String) (target : Field Config UInt64) : Setting Config :=
  ⟨name, UInt64, target, parseU64, fun v => v.toNat.repr⟩

def applyEnvUsize (name : String) (target : Field Config Nat) : Setting Config :=
  ⟨name, Nat, target, parseUsize, Nat.repr⟩

def applyEnvU8 (name : String) (target : Field Config UInt8) : Setting Config :=
  ⟨name, UInt8, target, parseU8, fun v => v.toNat.repr⟩

def applyEnvI32 (name : String) (target : Field Config Int) : Setting Config :=
  ⟨name, Int, target, parseI32, Int.repr⟩

def applyEnvBool (name : String) (target : Field Config Bool) : Setting Config :=
  ⟨name, Bool, target, parseBool, fun v => if v then "true" else "false"⟩

def overrides : List (Setting Config) :=
  [ applyEnvString "LOCAL_IP" ⟨localIp, fun c v => { c with localIp := v }⟩,
    applyEnvU16 "LOCAL_PORT" ⟨localPort, fun c v => { c with localPort := v }⟩,
    applyEnvString "REMOTE_IP" ⟨remoteIp, fun c v => { c with remoteIp := v }⟩,
    applyEnvU16 "REMOTE_TCP_PORT" ⟨remoteTcpPort, fun c v => { c with remoteTcpPort := v }⟩,
    applyEnvU16 "REMOTE_UDP_PORT" ⟨remoteUdpPort, fun c v => { c with remoteUdpPort := v }⟩,
    applyEnvUsize "POOL_SIZE" ⟨poolSize, fun c v => { c with poolSize := v }⟩,
    applyEnvUsize "REFILL_BATCH" ⟨refillBatch, fun c v => { c with refillBatch := v }⟩,
    applyEnvU64 "CONNECT_TIMEOUT" ⟨connectTimeout, fun c v => { c with connectTimeout := v }⟩,
    applyEnvU64 "IDLE_TIMEOUT" ⟨idleTimeout, fun c v => { c with idleTimeout := v }⟩,
    applyEnvU64 "HALF_CLOSE_TIMEOUT"
      ⟨halfCloseTimeout, fun c v => { c with halfCloseTimeout := v }⟩,
    applyEnvU64 "PRECONNECT_TTL_MS" ⟨preconnectTtlMs, fun c v => { c with preconnectTtlMs := v }⟩,
    applyEnvUsize "SPLICE_CHUNK" ⟨spliceChunk, fun c v => { c with spliceChunk := v }⟩,
    applyEnvUsize "SPLICE_PIPE_SIZE" ⟨splicePipeSize, fun c v => { c with splicePipeSize := v }⟩,
    applyEnvU64 "UDP_IDLE_TIMEOUT" ⟨udpIdleTimeout, fun c v => { c with udpIdleTimeout := v }⟩,
    applyEnvUsize "UDP_SOCKET_BUFFER"
      ⟨udpSocketBuffer, fun c v => { c with udpSocketBuffer := v }⟩,
    applyEnvUsize "UDP_BATCH_SIZE" ⟨udpBatchSize, fun c v => { c with udpBatchSize := v }⟩,
    applyEnvUsize "POOL_MIN_SIZE" ⟨poolMinSize, fun c v => { c with poolMinSize := v }⟩,
    applyEnvU8 "TTL_JITTER_PCT" ⟨ttlJitterPct, fun c v => { c with ttlJitterPct := v }⟩,
    applyEnvI32 "LISTEN_BACKLOG" ⟨listenBacklog, fun c v => { c with listenBacklog := v }⟩,
    applyEnvUsize "LOG_RATE_PER_SEC" ⟨logRatePerSec, fun c v => { c with logRatePerSec := v }⟩,
    applyEnvBool "LOG_ENABLE" ⟨logEnable, fun c v => { c with logEnable := v }⟩,
    applyEnvI32 "TCP_KEEPIDLE" ⟨tcpKeepidle, fun c v => { c with tcpKeepidle := v }⟩,
    applyEnvI32 "TCP_KEEPINTVL" ⟨tcpKeepintvl, fun c v => { c with tcpKeepintvl := v }⟩,
    applyEnvI32 "TCP_KEEPCNT" ⟨tcpKeepcnt, fun c v => { c with tcpKeepcnt := v }⟩,
    applyEnvI32 "TCP_USER_TIMEOUT_MS"
      ⟨tcpUserTimeoutMs, fun c v => { c with tcpUserTimeoutMs := v }⟩ ]

def applyEnvOverrides (env : String → Option String) (c : Config) : Config × List String :=
  Setting.applyAll env overrides (c, [])

end Config

/-- What the command line parser hands over; it has looked at the environment too. -/
structure Cli where
  localIp : Option String := none
  localPort : Option UInt16 := none
  remoteIp : Option String := none
  remoteTcpPort : Option UInt16 := none
  remoteUdpPort : Option UInt16 := none

def Cli.apply (cli : Cli) (c : Config) : Config :=
  { c with
    localIp := cli.localIp.getD c.localIp
    localPort := cli.localPort.getD c.localPort
    remoteIp := cli.remoteIp.getD c.remoteIp
    remoteTcpPort := cli.remoteTcpPort.getD c.remoteTcpPort
    remoteUdpPort := cli.remoteUdpPort.getD c.remoteUdpPort }

namespace Config

/-- The head of `main`: the configuration it runs with or the text it exits with, and
the warnings printed before. `file` is what the named file reads as, if one is named. -/
def load (file : Option (Except String Config)) (env : String → Option String) (cli : Cli) :
    Except String Config × List String :=
  match file.getD (.ok {}) with
  | .error e => (.error e, [])
  | .ok c =>
      let merged := c.applyEnvOverrides env
      ((cli.apply merged.1).validate, merged.2)

/-! ### The overrides are lawful -/

theorem overrides_own : ∀ s ∈ overrides, ∀ r v, s.field.get (s.field.set r v) = v := by
  simp only [overrides, applyEnvString, applyEnvU16, applyEnvU64, applyEnvUsize, applyEnvU8,
    applyEnvI32, applyEnvBool, List.forall_mem_cons, List.not_mem_nil, false_implies,
    implies_true, and_self]

theorem overrides_apart : overrides.Pairwise Setting.Apart := by
  simp only [overrides, applyEnvString, applyEnvU16, applyEnvU64, applyEnvUsize, applyEnvU8,
    applyEnvI32, applyEnvBool, Setting.apart_iff, List.pairwise_cons, List.forall_mem_cons,
    List.not_mem_nil, List.Pairwise.nil, false_implies, implies_true, and_self]

theorem overrides_lawful : Setting.Lawful overrides := ⟨overrides_own, overrides_apart⟩

theorem overrides_names : (overrides.map (·.name)).Nodup := by
  decide

variable {c d raw : Config} {env : String → Option String} {cli : Cli}

theorem ext_overrides (same : ∀ s ∈ overrides, s.field.get c = s.field.get d) : c = d := by
  simp only [overrides, List.forall_mem_cons] at same
  cases c
  cases d
  simp only [mk.injEq]
  obtain ⟨h1, h2, h3, h4, h5, h6, h7, h8, h9, h10, h11, h12, h13, h14, h15, h16, h17, h18, h19,
    h20, h21, h22, h23, h24, h25, -⟩ := same
  exact ⟨h1, h2, h3, h4, h5, h6, h7, h8, h9, h10, h11, h17, h18, h12, h13, h14, h15, h16, h19,
    h20, h21, h22, h23, h24, h25⟩

/-! ### Values and their texts -/

/-- The naturals are `usize` and the integers `i32` in the source. -/
structure Sized (c : Config) : Prop where
  usize : ∀ n ∈ [c.poolSize, c.refillBatch, c.poolMinSize, c.spliceChunk, c.splicePipeSize,
    c.udpSocketBuffer, c.udpBatchSize, c.logRatePerSec], n < 2 ^ 64
  i32 : ∀ i ∈ [c.listenBacklog, c.tcpKeepidle, c.tcpKeepintvl, c.tcpKeepcnt,
    c.tcpUserTimeoutMs], -2 ^ 31 ≤ i ∧ i < 2 ^ 31

theorem parseUsize_repr {n : Nat} (fits : n < 2 ^ 64) : parseUsize n.repr = some n := by
  rw [parseUsize, Nat.toList_repr]
  exact Decimal.unsigned_toDigits (by omega)

theorem parseU8_repr (v : UInt8) : parseU8 v.toNat.repr = some v := by
  have fits := v.toNat_lt
  rw [parseU8, Nat.toList_repr, Decimal.unsigned_toDigits (by omega), Option.map_some,
    UInt8.ofNat_toNat]

theorem parseU16_repr (v : UInt16) : parseU16 v.toNat.repr = some v := by
  have fits := v.toNat_lt
  rw [parseU16, Nat.toList_repr, Decimal.unsigned_toDigits (by omega), Option.map_some,
    UInt16.ofNat_toNat]

theorem parseU64_repr (v : UInt64) : parseU64 v.toNat.repr = some v := by
  have fits := v.toNat_lt
  rw [parseU64, Nat.toList_repr, Decimal.unsigned_toDigits (by omega), Option.map_some,
    UInt64.ofNat_toNat]

theorem parseI32_repr {i : Int} (fits : -2 ^ 31 ≤ i ∧ i < 2 ^ 31) : parseI32 i.repr = some i := by
  rw [parseI32]
  exact Decimal.signed_repr (by omega) (by omega)

theorem parseBool_display (v : Bool) : parseBool (if v then "true" else "false") = some v := by
  cases v with
  | false => decide
  | true => decide

theorem Sized.readable (h : c.Sized) : Setting.Readable overrides c := by
  have usize := h.usize
  have i32 := h.i32
  simp only [List.forall_mem_cons] at usize i32
  obtain ⟨u1, u2, u3, u4, u5, u6, u7, u8, -⟩ := usize
  obtain ⟨i1, i2, i3, i4, i5, -⟩ := i32
  simp only [Setting.Readable, overrides, applyEnvString, applyEnvU16, applyEnvU64, applyEnvUsize,
    applyEnvU8, applyEnvI32, applyEnvBool, List.forall_mem_cons, List.not_mem_nil, false_implies,
    implies_true, and_self, id_eq, parseU16_repr, parseU64_repr, parseU8_repr,
    parseUsize_repr u1, parseUsize_repr u2, parseUsize_repr u3, parseUsize_repr u4,
    parseUsize_repr u5, parseUsize_repr u6, parseUsize_repr u7, parseUsize_repr u8,
    parseI32_repr i1, parseI32_repr i2, parseI32_repr i3, parseI32_repr i4, parseI32_repr i5,
    parseBool_display]

/-! ### The merge -/

/-- The overrides, settled: a result is the result exactly when every field holds its
variable's value, if that reads, or else what it held, and the lines are those about
the unreadable variables, in order, each with the value kept. -/
theorem applyEnvOverrides_iff {lines : List String} :
    c.applyEnvOverrides env = (d, lines) ↔
      (∀ s ∈ overrides, s.field.get d = s.chosen env c) ∧
        lines = overrides.filterMap fun s => s.complaint env c := by
  obtain ⟨fields, printed⟩ :=
    Setting.applyAll_settled env overrides (c, []) overrides_lawful
  rw [List.nil_append] at printed
  constructor
  · intro result
    rw [applyEnvOverrides] at result
    rw [result] at fields printed
    exact ⟨fields, printed⟩
  · intro ⟨settled, about⟩
    refine Prod.ext ?_ ?_
    · exact ext_overrides fun s mem => (fields s mem).trans (settled s mem).symm
    · exact printed.trans about.symm

example : ({} : Config).applyEnvOverrides (fun name =>
    if name = "POOL_SIZE" then some "many" else if name = "LOCAL_PORT" then some "+80" else none) =
      ({ localPort := 80 }, ["WARN: invalid POOL_SIZE=many, keeping 32"]) := by
  decide

theorem applyEnvOverrides_spell (sized : d.Sized) :
    c.applyEnvOverrides (Setting.spell overrides d) = (d, []) := by
  obtain ⟨fields, printed⟩ :=
    Setting.applyAll_spell overrides_lawful overrides_names sized.readable (c, [])
  exact Prod.ext (ext_overrides fields) printed

/-! ### Validation -/

theorem repairRefillBatch_of_bounds (h : 0 < c.refillBatch)
    (h' : 0 < c.poolSize → c.refillBatch ≤ c.poolSize) : c.repairRefillBatch = c := by
  have batch : (if c.refillBatch = 0 then 1 else c.refillBatch) = c.refillBatch :=
    if_neg (by omega)
  have kept : ¬ (0 < c.poolSize ∧ c.poolSize < c.refillBatch) := by omega
  unfold repairRefillBatch
  dsimp only
  rw [batch, if_neg kept]

theorem validate_again (h : raw.validate = .ok c) : c.validate = .ok c := by
  simp only [validate, refuse_bind, pure, Except.pure, Except.ok.injEq] at h ⊢
  obtain ⟨h1, h2, h3, h4, h5, h6, h7, h8, h9, h10, h11, h12, h13, h14, h15, h16, h17, h18, rfl⟩ := h
  obtain ⟨positive, bound⟩ := repairRefillBatch_bounds raw
  rw [repairRefillBatch_of_bounds positive bound]
  exact ⟨h1, h2, h3, h4, h5, h6, h7, h8, h9, h10, h11, h12, h13, h14, h15, h16, h17, h18, rfl⟩

end Config

/-- Whatever the parser hands over, the environment says too: no flag went against it. -/
structure Cli.Follows (cli : Cli) (env : String → Option String) : Prop where
  localIp : ∀ v, cli.localIp = some v → env "LOCAL_IP" = some v
  localPort : ∀ v, cli.localPort = some v → (env "LOCAL_PORT").bind parseU16 = some v
  remoteIp : ∀ v, cli.remoteIp = some v → env "REMOTE_IP" = some v
  remoteTcpPort : ∀ v, cli.remoteTcpPort = some v →
    (env "REMOTE_TCP_PORT").bind parseU16 = some v
  remoteUdpPort : ∀ v, cli.remoteUdpPort = some v →
    (env "REMOTE_UDP_PORT").bind parseU16 = some v

theorem getD_follows {α : Type} {o p : Option α} {a : α} (follows : ∀ v, o = some v → p = some v)
    (said : p = some a) : o.getD a = a := by
  cases o with
  | none => rfl
  | some v =>
    have same : p = some v := follows v rfl
    rw [said, Option.some.injEq] at same
    exact same.symm

namespace Config

variable {c : Config} {cli : Cli} {file : Option (Except String Config)} {base : Config}

theorem apply_spelled (follows : cli.Follows (Setting.spell overrides c)) : cli.apply c = c := by
  have localIp : Setting.spell overrides c "LOCAL_IP" = some c.localIp := rfl
  have localPort : (Setting.spell overrides c "LOCAL_PORT").bind parseU16 = some c.localPort :=
    parseU16_repr c.localPort
  have remoteIp : Setting.spell overrides c "REMOTE_IP" = some c.remoteIp := rfl
  have tcp : (Setting.spell overrides c "REMOTE_TCP_PORT").bind parseU16 = some c.remoteTcpPort :=
    parseU16_repr c.remoteTcpPort
  have udp : (Setting.spell overrides c "REMOTE_UDP_PORT").bind parseU16 = some c.remoteUdpPort :=
    parseU16_repr c.remoteUdpPort
  unfold Cli.apply
  rw [getD_follows follows.localIp localIp, getD_follows follows.localPort localPort,
    getD_follows follows.remoteIp remoteIp, getD_follows follows.remoteTcpPort tcp,
    getD_follows follows.remoteUdpPort udp]

/-- Any configuration in force can be written into the environment: from there it is
loaded as it is, past any file, and nothing is printed. -/
theorem load_spelled (v : ValidConfig) (sized : v.cfg.Sized) (named : file.getD (.ok {}) = .ok base)
    (follows : cli.Follows (Setting.spell overrides v.cfg)) :
    load file (Setting.spell overrides v.cfg) cli = (.ok v.cfg, []) := by
  obtain ⟨raw, accepted⟩ := v.accepted
  simp only [load, named, applyEnvOverrides_spell sized, apply_spelled follows,
    validate_again accepted]

/-- With a file of its own and a flag that repeats a variable. -/
theorem load_spelled_defaults :
    load (some (.ok { poolSize := 4, idleTimeout := 3 }))
      (Setting.spell overrides ValidConfig.defaults.cfg) { localPort := some 1234 } =
        (.ok ValidConfig.defaults.cfg, []) :=
  load_spelled ValidConfig.defaults
    ⟨by decide, by decide⟩ rfl
    ⟨by simp, fun v given => given, by simp, by simp, by simp⟩

end Config

end PreconnRelay

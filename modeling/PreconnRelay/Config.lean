import Mathlib.Tactic.Common

/-! The merged configuration and its validation. `usize` fields are naturals;
fields that enter wrapping arithmetic elsewhere keep their machine width.
`validate` is applied to an arbitrary merged record here; how `main` comes by one is
in `Loading`. -/

namespace PreconnRelay

structure Config where
  localIp : String := ""
  localPort : UInt16 := 0
  remoteIp : String := ""
  remoteTcpPort : UInt16 := 0
  remoteUdpPort : UInt16 := 0
  poolSize : Nat := 32
  refillBatch : Nat := 8
  connectTimeout : UInt64 := 5
  idleTimeout : UInt64 := 180
  halfCloseTimeout : UInt64 := 6
  preconnectTtlMs : UInt64 := 60000
  poolMinSize : Nat := 0
  ttlJitterPct : UInt8 := 25
  spliceChunk : Nat := 131072
  splicePipeSize : Nat := 1048576
  udpIdleTimeout : UInt64 := 60
  udpSocketBuffer : Nat := 4194304
  udpBatchSize : Nat := 64
  listenBacklog : Int := 16384
  logRatePerSec : Nat := 24
  logEnable : Bool := true
  tcpKeepidle : Int := 45
  tcpKeepintvl : Int := 10
  tcpKeepcnt : Int := 2
  tcpUserTimeoutMs : Int := 0
  deriving DecidableEq, Repr

namespace Config

/-- One check of `validate`: refuse with `msg` when `bad` holds. -/
def refuse (bad : Prop) [Decidable bad] (msg : String) : Except String Unit :=
  if bad then .error msg else .ok ()

/-- `refill_batch` is repaired rather than refused. -/
def repairRefillBatch (c : Config) : Config :=
  let batch := if c.refillBatch = 0 then 1 else c.refillBatch
  { c with refillBatch := if 0 < c.poolSize ∧ c.poolSize < batch then c.poolSize else batch }

def validate (c : Config) : Except String Config := do
  refuse (c.localIp = "") "local_ip is required (set LOCAL_IP env or local_ip in TOML)"
  refuse (c.localPort = 0) "local_port is required (set LOCAL_PORT env or local_port in TOML)"
  refuse (c.remoteIp = "") "remote_ip is required (set REMOTE_IP env or remote_ip in TOML)"
  refuse (c.remoteTcpPort = 0)
    "remote_tcp_port is required (set REMOTE_TCP_PORT env or remote_tcp_port in TOML)"
  refuse (c.remoteUdpPort = 0)
    "remote_udp_port is required (set REMOTE_UDP_PORT env or remote_udp_port in TOML)"
  refuse (256 < c.poolSize) "pool_size must be <= 256"
  let c := c.repairRefillBatch
  refuse (c.spliceChunk < 16 * 1024 ∨ 1024 * 1024 < c.spliceChunk)
    "splice_chunk must be between 16 KiB and 1 MiB"
  refuse (c.splicePipeSize < 4096 ∨ 1048576 < c.splicePipeSize)
    "splice_pipe_size must be between 4 KiB and 1 MiB"
  refuse (c.udpBatchSize < 1 ∨ 128 < c.udpBatchSize) "udp_batch_size must be between 1 and 128"
  refuse (c.poolSize < c.poolMinSize) "pool_min_size must be <= pool_size"
  refuse (50 < c.ttlJitterPct) "ttl_jitter_pct must be <= 50"
  refuse (c.connectTimeout < 1 ∨ 65 < c.connectTimeout)
    "connect_timeout must be between 1 and 65 seconds"
  refuse (c.idleTimeout < 30) "idle_timeout must be >= 30"
  refuse (c.halfCloseTimeout < 1) "half_close_timeout must be >= 1"
  refuse (c.preconnectTtlMs < 10000) "preconnect_ttl_ms must be >= 10000"
  refuse (c.tcpKeepidle < 10 ∨ 86400 < c.tcpKeepidle) "tcp_keepidle must be between 10 and 86400"
  refuse (c.tcpKeepintvl < 1 ∨ 3600 < c.tcpKeepintvl) "tcp_keepintvl must be between 1 and 3600"
  refuse (c.tcpKeepcnt < 1 ∨ 30 < c.tcpKeepcnt) "tcp_keepcnt must be between 1 and 30"
  return c

theorem refuse_bind {α : Type} {bad : Prop} [Decidable bad] {msg : String}
    {k : Unit → Except String α} {a : α} :
    (refuse bad msg >>= k) = .ok a ↔ ¬ bad ∧ k () = .ok a := by
  by_cases h : bad
  · simp [refuse, h, bind, Except.bind]
  · simp [refuse, h, bind, Except.bind]

/-- Everything `validate` guarantees of the record it returns. -/
structure Sound (c : Config) : Prop where
  poolSize : c.poolSize ≤ 256
  refillBatch : 0 < c.refillBatch ∧ (0 < c.poolSize → c.refillBatch ≤ c.poolSize)
  spliceChunk : 16 * 1024 ≤ c.spliceChunk ∧ c.spliceChunk ≤ 1024 * 1024
  splicePipeSize : 4096 ≤ c.splicePipeSize ∧ c.splicePipeSize ≤ 1048576
  udpBatchSize : 1 ≤ c.udpBatchSize ∧ c.udpBatchSize ≤ 128
  poolMinSize : c.poolMinSize ≤ c.poolSize
  ttlJitterPct : c.ttlJitterPct ≤ 50
  connectTimeout : 1 ≤ c.connectTimeout ∧ c.connectTimeout ≤ 65
  idleTimeout : 30 ≤ c.idleTimeout
  halfCloseTimeout : 1 ≤ c.halfCloseTimeout
  preconnectTtlMs : 10000 ≤ c.preconnectTtlMs

theorem repairRefillBatch_bounds (c : Config) :
    0 < c.repairRefillBatch.refillBatch ∧
    (0 < c.repairRefillBatch.poolSize →
      c.repairRefillBatch.refillBatch ≤ c.repairRefillBatch.poolSize) := by
  simp only [repairRefillBatch]
  split_ifs <;> omega

theorem validate_sound {raw c : Config} (h : raw.validate = .ok c) : c.Sound := by
  simp only [validate, refuse_bind, pure, Except.pure, Except.ok.injEq] at h
  obtain ⟨-, -, -, -, -, hpool, hchunk, hpipe, hudp, hmin, hpct, hconn, hidle, hhalf, httl,
    -, -, -, rfl⟩ := h
  have repaired := repairRefillBatch_bounds raw
  exact {
    poolSize := Nat.le_of_not_lt hpool
    refillBatch := repaired
    spliceChunk := by omega
    splicePipeSize := by omega
    udpBatchSize := by omega
    poolMinSize := by omega
    ttlJitterPct := UInt8.not_lt.mp hpct
    connectTimeout := ⟨UInt64.not_lt.mp fun lt => hconn (.inl lt),
      UInt64.not_lt.mp fun lt => hconn (.inr lt)⟩
    idleTimeout := UInt64.not_lt.mp hidle
    halfCloseTimeout := UInt64.not_lt.mp hhalf
    preconnectTtlMs := UInt64.not_lt.mp httl }

theorem validate_defaults (localIp remoteIp : String) (lp tp up : UInt16)
    (hl : localIp ≠ "") (hr : remoteIp ≠ "") (hlp : lp ≠ 0) (htp : tp ≠ 0) (hup : up ≠ 0) :
    let c : Config :=
      { localIp, localPort := lp, remoteIp, remoteTcpPort := tp, remoteUdpPort := up }
    c.validate = .ok c := by
  intro c
  have repaired : c.repairRefillBatch = c := rfl
  simp only [validate, refuse_bind, repaired, pure, Except.pure, and_true]
  refine ⟨hl, hlp, hr, htp, hup, ?_, ?_, ?_, ?_, ?_, ?_, ?_, ?_, ?_, ?_, ?_, ?_, ?_⟩
  all_goals simp only [c]; decide

end Config

structure ValidConfig where
  cfg : Config
  accepted : ∃ raw : Config, raw.validate = .ok cfg

theorem ValidConfig.sound (v : ValidConfig) : v.cfg.Sound := by
  obtain ⟨raw, h⟩ := v.accepted
  exact Config.validate_sound h

def ValidConfig.defaults : ValidConfig where
  cfg := { localIp := "0.0.0.0", localPort := 1234, remoteIp := "1.2.3.4", remoteTcpPort := 443,
           remoteUdpPort := 443 }
  accepted := ⟨_, Config.validate_defaults _ _ _ _ _ (by decide) (by decide) (by decide)
    (by decide) (by decide)⟩

end PreconnRelay

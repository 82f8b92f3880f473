import AthenaOS.Capability.Basic

/-!
# The packet filter (`kernel/src/firewall.rs`)

Every received and every sent packet passes `filter_packet`. Connection tracking
runs first, then the per-source rate limiter (inbound only), then the ordered
rule list, then the default policy of the direction.

Counters wrap, as they do in the release build. A timer reading the source takes
while it adds a rule is a parameter (`nowMs`, by the id of the rule).
-/

namespace AthenaOS.Net

inductive Verdict where
  | allow
  | deny
  /-- Deny and log the packet. -/
  | denyAndLog
  deriving DecidableEq, Repr

inductive Direction where
  | inbound
  | outbound
  | both
  deriving DecidableEq, Repr

inductive Protocol where
  | any
  | tcp
  | udp
  | icmp
  deriving DecidableEq, Repr

/-- `proto as u64`: the declaration order. -/
def Protocol.discriminant : Protocol → UInt64
  | any => 0
  | tcp => 1
  | udp => 2
  | icmp => 3

/-- `[u8; 4]`. -/
abbrev Ipv4 : Type := Vector UInt8 4

/-- `u32::from_be_bytes`. -/
def Ipv4.toUInt32 (addr : Ipv4) : UInt32 :=
  addr.toList.foldl (fun n b => n <<< 8 ||| b.toUInt32) 0

/-! ## Matching -/

inductive AddrMatch where
  | any
  | exact (addr : Ipv4)
  | subnet (net : Ipv4) (pfxLen : UInt8)
  deriving DecidableEq

def AddrMatch.matches (addr : Ipv4) : AddrMatch → Bool
  | any => true
  | exact a => a == addr
  | subnet net pfxLen =>
    let mask : UInt32 :=
      if pfxLen ≥ 32 then 0xFFFFFFFF else ~~~((1 <<< (32 - pfxLen.toUInt32)) - 1)
    net.toUInt32 &&& mask == addr.toUInt32 &&& mask

inductive PortMatch where
  | any
  | single (port : UInt16)
  | range (lo hi : UInt16)
  deriving DecidableEq

def PortMatch.matches (port : UInt16) : PortMatch → Bool
  | any => true
  | single p => p == port
  | range lo hi => port ≥ lo && port ≤ hi

structure PacketInfo where
  srcAddr : Ipv4
  dstAddr : Ipv4
  srcPort : UInt16
  dstPort : UInt16
  protocol : Protocol
  length : UInt64
  appId : Option UInt64
  deriving DecidableEq

structure FirewallRule where
  id : UInt64
  direction : Direction
  protocol : Protocol
  srcAddr : AddrMatch
  dstAddr : AddrMatch
  srcPort : PortMatch
  dstPort : PortMatch
  appId : Option UInt64
  action : Verdict
  description : String
  enabled : Bool
  hitCount : UInt64
  createdAt : UInt64

def FirewallRule.matchesPacket (rule : FirewallRule) (pkt : PacketInfo)
    (direction : Direction) : Bool :=
  rule.enabled
    && (rule.direction == .both || rule.direction == direction)
    && (rule.protocol == .any || rule.protocol == pkt.protocol)
    && rule.srcAddr.matches pkt.srcAddr
    && rule.dstAddr.matches pkt.dstAddr
    && rule.srcPort.matches pkt.srcPort
    && rule.dstPort.matches pkt.dstPort
    && match rule.appId with
      | some ruleApp => pkt.appId == some ruleApp
      | none => true

/-! ## Connection tracking -/

inductive ConnState where
  | new
  | established
  | related
  deriving DecidableEq, Repr

structure TrackedConn where
  state : ConnState
  lastSeen : UInt64
  packets : UInt64
  timeoutSecs : UInt32
  deriving DecidableEq

/-- One entry per hash of a 5-tuple, with `track` and `cleanup`. -/
structure ConnTracker where
  table : Std.ExtTreeMap UInt64 TrackedConn
  maxEntries : Nat

/-- `u64::saturating_sub`. -/
def satSub64 (a b : UInt64) : UInt64 := if b ≤ a then a - b else 0

/-- How long an entry of the protocol may stay idle. -/
def Protocol.timeoutSecs : Protocol → UInt32
  | tcp => 7200
  | udp => 180
  | icmp => 30
  | any => 600

namespace ConnTracker

def new (max : Nat) : ConnTracker := { table := ∅, maxEntries := max }

/-- FNV-1a over the address bytes, then the ports and the protocol as whole
words; the last word is not multiplied. -/
def hashTuple (src dst : Ipv4) (sp dp : UInt16) (proto : Protocol) : UInt64 :=
  let h := (src.toList ++ dst.toList).foldl (fun h b => (h ^^^ b.toUInt64) * 0x100000001b3)
    0xcbf29ce484222325
  let h := (h ^^^ sp.toUInt64) * 0x100000001b3
  let h := (h ^^^ dp.toUInt64) * 0x100000001b3
  h ^^^ proto.discriminant

/-- The key a packet is looked up under first. -/
def fwd (pkt : PacketInfo) : UInt64 :=
  hashTuple pkt.srcAddr pkt.dstAddr pkt.srcPort pkt.dstPort pkt.protocol

/-- The key of the reply direction. -/
def rev (pkt : PacketInfo) : UInt64 :=
  hashTuple pkt.dstAddr pkt.srcAddr pkt.dstPort pkt.srcPort pkt.protocol

/-- What a packet that finds an entry does to it. -/
def touch (conn : TrackedConn) (now : UInt64) : TrackedConn :=
  { conn with
    lastSeen := now
    packets := conn.packets + 1
    state := if conn.state = .new then .established else conn.state }

/-- Track or look up a connection. Returns the state. -/
def track (ct : ConnTracker) (pkt : PacketInfo) (now : UInt64) : ConnState × ConnTracker :=
  match ct.table[fwd pkt]? with
  | some conn =>
    ((touch conn now).state, { ct with table := ct.table.insert (fwd pkt) (touch conn now) })
  | none =>
    -- the reply direction
    match ct.table[rev pkt]? with
    | some conn => (.related, { ct with table := ct.table.insert (rev pkt) (touch conn now) })
    | none =>
      if ct.table.size ≥ ct.maxEntries then (.new, ct)
      else
        -- the entry is made before anything has decided about the packet
        let conn : TrackedConn :=
          { state := .new, lastSeen := now, packets := 1
            timeoutSecs := pkt.protocol.timeoutSecs }
        (.new, { ct with table := ct.table.insert (fwd pkt) conn })

/-- `cleanup` keeps the entries that have not been idle for their timeout. -/
def cleanup (ct : ConnTracker) (now : UInt64) : ConnTracker :=
  { ct with table :=
      ct.table.filter fun _ c => decide (satSub64 now c.lastSeen < c.timeoutSecs.toUInt64) }

end ConnTracker

/-! ## Rate limiting -/

structure RateBucket where
  tokens : UInt32
  lastRefill : UInt64

/-- The token buckets. -/
structure RateLimiter where
  buckets : Std.ExtTreeMap UInt32 RateBucket
  maxTokens : UInt32
  refillRate : UInt32
  refillIntervalMs : UInt64
  maxSources : Nat

namespace RateLimiter

def new (maxPps burst : UInt32) : RateLimiter where
  buckets := ∅
  maxTokens := burst
  refillRate := maxPps
  refillIntervalMs := 1000
  maxSources := 4096

def evictStale (rl : RateLimiter) (nowMs : UInt64) : RateLimiter :=
  { rl with buckets := rl.buckets.filter fun _ b => decide (b.lastRefill > satSub64 nowMs 60000) }

/-- Refill of a bucket for the whole periods since the last one. -/
def refill (rl : RateLimiter) (bucket : RateBucket) (nowMs : UInt64) : RateBucket :=
  let elapsed := satSub64 nowMs bucket.lastRefill
  if elapsed ≥ rl.refillIntervalMs then
    let periods := (elapsed / rl.refillIntervalMs).toUInt32
    { tokens := min (bucket.tokens + periods * rl.refillRate) rl.maxTokens, lastRefill := nowMs }
  else bucket

/-- `true` if the packet is within rate limits. -/
def check (rl : RateLimiter) (srcAddr : Ipv4) (nowMs : UInt64) : Bool × RateLimiter :=
  let key := srcAddr.toUInt32
  match rl.buckets[key]? with
  | some bucket =>
    let bucket := rl.refill bucket nowMs
    if bucket.tokens > 0 then
      (true, { rl with buckets := rl.buckets.insert key { bucket with tokens := bucket.tokens - 1 } })
    else (false, { rl with buckets := rl.buckets.insert key bucket })
  | none =>
    let rl := if rl.buckets.size ≥ rl.maxSources then rl.evictStale nowMs else rl
    (true, { rl with buckets :=
      rl.buckets.insert key { tokens := rl.maxTokens - 1, lastRefill := nowMs } })

end RateLimiter

/-! ## The firewall -/

structure FirewallLogEntry where
  timestamp : UInt64
  ruleId : UInt64
  direction : Direction
  verdict : Verdict
  protocol : Protocol
  srcAddr : Ipv4
  dstAddr : Ipv4
  srcPort : UInt16
  dstPort : UInt16
  appId : Option UInt64
  length : UInt64

structure FirewallStats where
  packetsAllowed : UInt64 := 0
  packetsDenied : UInt64 := 0
  packetsRateLimited : UInt64 := 0
  packetsConntrackAllowed : UInt64 := 0
  bytesAllowed : UInt64 := 0
  bytesDenied : UInt64 := 0

inductive FirewallProfile where
  | allowAll
  /-- Default deny inbound, allow outbound: the production default. -/
  | defaultDeny
  /-- Game ports open, telemetry blocked. -/
  | gamingOptimized
  deriving DecidableEq, Repr

inductive FirewallError where
  | capabilityDenied
  | ruleNotFound
  | notInitialized
  deriving DecidableEq, Repr

/-- `filterPacket` and the capability-gated rule management. -/
structure Firewall where
  rules : List FirewallRule
  conntrack : ConnTracker
  rateLimiter : RateLimiter
  defaultInbound : Verdict
  defaultOutbound : Verdict
  profile : FirewallProfile
  enabled : Bool
  nextRuleId : UInt64
  logBuffer : List FirewallLogEntry
  maxLogEntries : Nat
  stats : FirewallStats

/-- The single authority gate of the rule management: some held cap is a
`Cap::Network` with the required rights. -/
def checkNetworkCap (capTable : CapTable) (required : Rights) : Except FirewallError Unit :=
  let holds (cap : Cap) : Bool :=
    match cap with
    | .network _ _ rights => rights.contains required
    | _ => false
  if capTable.slots.toList.any fun (_, cap) => holds cap then .ok () else .error .capabilityDenied

namespace FirewallStats

def allowed (s : FirewallStats) (pkt : PacketInfo) : FirewallStats :=
  { s with packetsAllowed := s.packetsAllowed + 1, bytesAllowed := s.bytesAllowed + pkt.length }

def denied (s : FirewallStats) (pkt : PacketInfo) : FirewallStats :=
  { s with packetsDenied := s.packetsDenied + 1, bytesDenied := s.bytesDenied + pkt.length }

def conntrackAllowed (s : FirewallStats) (pkt : PacketInfo) : FirewallStats :=
  { s.allowed pkt with packetsConntrackAllowed := s.packetsConntrackAllowed + 1 }

def rateLimited (s : FirewallStats) (pkt : PacketInfo) : FirewallStats :=
  { s.denied pkt with packetsRateLimited := s.packetsRateLimited + 1 }

end FirewallStats

namespace Firewall

def new : Firewall where
  rules := []
  conntrack := .new 65536
  rateLimiter := .new 1000 2000
  defaultInbound := .deny
  defaultOutbound := .allow
  profile := .defaultDeny
  enabled := true
  nextRuleId := 1
  logBuffer := []
  maxLogEntries := 4096
  stats := {}

/-! ### Profiles and rule management -/

/-- `next_id` and `insert_rule`: a fresh enabled rule with the next id. -/
def pushRule (fw : Firewall) (nowMs : UInt64 → UInt64) (direction : Direction)
    (protocol : Protocol) (srcAddr dstAddr : AddrMatch) (srcPort dstPort : PortMatch)
    (appId : Option UInt64) (action : Verdict) (description : String) : Firewall :=
  { fw with
    nextRuleId := fw.nextRuleId + 1
    rules := fw.rules ++ [{
      id := fw.nextRuleId, direction, protocol, srcAddr, dstAddr, srcPort, dstPort, appId, action
      description, enabled := true, hitCount := 0, createdAt := nowMs fw.nextRuleId }] }

def addDefaultRules (fw : Firewall) (nowMs : UInt64 → UInt64) : Firewall :=
  let loopback : Ipv4 := #v[127, 0, 0, 1]
  let fw := fw.pushRule nowMs .both .any (.exact loopback) (.exact loopback) .any .any none .allow
    "loopback"
  let fw := fw.pushRule nowMs .inbound .icmp .any .any .any .any none .allow "allow ICMP"
  let fw := fw.pushRule nowMs .inbound .udp .any .any (.single 67) (.single 68) none .allow
    "DHCP replies"
  fw.pushRule nowMs .inbound .udp .any .any (.single 53) .any none .allow "DNS responses"

def addGamingRules (fw : Firewall) (nowMs : UInt64 → UInt64) : Firewall :=
  let fw := fw.pushRule nowMs .both .udp .any .any .any (.range 27000 27050) none .allow
    "Steam game traffic"
  let fw := fw.pushRule nowMs .both .udp .any .any .any (.range 3478 3480) none .allow
    "STUN/TURN NAT traversal"
  let fw := fw.pushRule nowMs .both .udp .any .any .any (.range 7777 7800) none .allow
    "game server ports"
  fw.pushRule nowMs .outbound .tcp .any .any .any (.single 8443) none .denyAndLog
    "block telemetry (8443)"

def applyProfile (fw : Firewall) (nowMs : UInt64 → UInt64) (profile : FirewallProfile) :
    Firewall :=
  let fw := { fw with rules := [], profile }
  match profile with
  | .allowAll => { fw with defaultInbound := .allow, defaultOutbound := .allow }
  | .defaultDeny =>
    { fw with defaultInbound := .deny, defaultOutbound := .allow }.addDefaultRules nowMs
  | .gamingOptimized =>
    ({ fw with defaultInbound := .deny, defaultOutbound := .allow }.addDefaultRules
      nowMs).addGamingRules nowMs

/-- Add a rule. Requires `Cap::Network` with WRITE rights, as all of these do. -/
def addRule (fw : Firewall) (capTable : CapTable) (nowMs : UInt64 → UInt64)
    (direction : Direction) (protocol : Protocol) (srcAddr dstAddr : AddrMatch)
    (srcPort dstPort : PortMatch) (appId : Option UInt64) (action : Verdict)
    (description : String) : Except FirewallError (UInt64 × Firewall) := do
  checkNetworkCap capTable Rights.write
  return (fw.nextRuleId, fw.pushRule nowMs direction protocol srcAddr dstAddr srcPort dstPort
    appId action description)

/-- Remove the rules with an id. -/
def removeRule (fw : Firewall) (capTable : CapTable) (ruleId : UInt64) :
    Except FirewallError Firewall := do
  checkNetworkCap capTable Rights.write
  let rules := fw.rules.filter fun r => r.id != ruleId
  if rules.length < fw.rules.length then return { fw with rules } else throw .ruleNotFound

/-- Toggle the first rule with an id. -/
def setRuleEnabled (fw : Firewall) (capTable : CapTable) (ruleId : UInt64) (enabled : Bool) :
    Except FirewallError Firewall := do
  checkNetworkCap capTable Rights.write
  match fw.rules.findIdx? fun r => r.id == ruleId with
  | some i => return { fw with rules := fw.rules.modify i fun r => { r with enabled } }
  | none => throw .ruleNotFound

def setProfile (fw : Firewall) (capTable : CapTable) (nowMs : UInt64 → UInt64)
    (profile : FirewallProfile) : Except FirewallError Firewall := do
  checkNetworkCap capTable Rights.write
  return fw.applyProfile nowMs profile

def flushRules (fw : Firewall) (capTable : CapTable) : Except FirewallError Firewall := do
  checkNetworkCap capTable Rights.write
  return { fw with rules := [] }

/-! ### Packet filtering -/

def logDenied (fw : Firewall) (pkt : PacketInfo) (direction : Direction) (ruleId timestamp : UInt64) :
    Firewall :=
  let kept := if fw.logBuffer.length ≥ fw.maxLogEntries then fw.logBuffer.drop 1 else fw.logBuffer
  { fw with logBuffer := kept ++ [{
      timestamp, ruleId, direction, verdict := .deny, protocol := pkt.protocol
      srcAddr := pkt.srcAddr, dstAddr := pkt.dstAddr, srcPort := pkt.srcPort
      dstPort := pkt.dstPort, appId := pkt.appId, length := pkt.length }] }

/-- The default policy of a direction. -/
def defaultVerdict (fw : Firewall) : Direction → Verdict
  | .inbound => fw.defaultInbound
  | .outbound => fw.defaultOutbound
  | .both => fw.defaultInbound

/-- The bookkeeping for a verdict of the rule with id `ruleId` (0 for the default
policy). -/
def record (fw : Firewall) (pkt : PacketInfo) (direction : Direction) (ruleId now : UInt64) :
    Verdict → Firewall
  | .allow => { fw with stats := fw.stats.allowed pkt }
  | .deny => { fw with stats := fw.stats.denied pkt }
  | .denyAndLog => { fw with stats := fw.stats.denied pkt }.logDenied pkt direction ruleId now

/-- Steps 3 and 4 of `filter_packet`: the first matching rule, else the default
policy. -/
def judge (fw : Firewall) (pkt : PacketInfo) (direction : Direction) (now : UInt64) :
    Verdict × Firewall :=
  let hit (rule : FirewallRule) : Bool := rule.matchesPacket pkt direction
  match fw.rules.find? hit with
  | some rule =>
    let rules := fw.rules.modify (fw.rules.findIdx hit) fun r => { r with hitCount := r.hitCount + 1 }
    (rule.action, { fw with rules }.record pkt direction rule.id now rule.action)
  | none =>
    let default := fw.defaultVerdict direction
    (default, fw.record pkt direction 0 now default)

/-- Step 2 of `filter_packet`: inbound packets pass the rate limiter. -/
def limit (fw : Firewall) (pkt : PacketInfo) (direction : Direction) (now : UInt64) :
    Bool × Firewall :=
  if direction = .inbound then
    let (pass, rateLimiter) := fw.rateLimiter.check pkt.srcAddr (now * 1000)
    (pass, { fw with rateLimiter })
  else (true, fw)

/-- The main entry point called on every TX/RX packet. -/
def filterPacket (fw : Firewall) (pkt : PacketInfo) (direction : Direction) (now : UInt64) :
    Verdict × Firewall :=
  if !fw.enabled then (.allow, fw)
  else
    let (ct, conntrack) := fw.conntrack.track pkt now
    let fw := { fw with conntrack }
    if ct = .established ∨ ct = .related then
      (.allow, { fw with stats := fw.stats.conntrackAllowed pkt })
    else
      let (pass, fw) := fw.limit pkt direction now
      if !pass then (.deny, { fw with stats := fw.stats.rateLimited pkt })
      else fw.judge pkt direction now

/-- Expire stale connection tracking entries. -/
def cleanup (fw : Firewall) (now : UInt64) : Firewall :=
  { fw with conntrack := fw.conntrack.cleanup now }

def clearLog (fw : Firewall) : Firewall := { fw with logBuffer := [] }

def resetStats (fw : Firewall) : Firewall := { fw with stats := {} }

def resetRuleCounters (fw : Firewall) : Firewall :=
  { fw with rules := fw.rules.map fun r => { r with hitCount := 0 } }

end Firewall

end AthenaOS.Net

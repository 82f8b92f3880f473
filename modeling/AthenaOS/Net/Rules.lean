import AthenaOS.Net.Conntrack
import AthenaOS.Net.RateLimit

/-!
# Rule evaluation (`kernel/src/firewall.rs`)

What the rules mean for a packet, and `filter_packet` with the overflow checks of a debug build.
-/

namespace AthenaOS.Net

open Lib

/-! ## Subnets -/

/-- Bit `i` of an address, the first bit first. -/
def Ipv4.bit (addr : Ipv4) (i : Nat) : Bool := (addr.toList.getD (i / 8) 0).toNat.testBit (7 - i % 8)

theorem testBit_byte (hi : Nat) (b : UInt8) (j : Nat) :
    (hi * 256 + b.toNat).testBit j = if j < 8 then b.toNat.testBit j else hi.testBit (j - 8) := by
  rw [Nat.mul_comm]
  exact Nat.testBit_two_pow_mul_add hi b.toNat_lt j

/-- The number of an address has its bits, the first one on top. -/
theorem Ipv4.testBit_toUInt32 (addr : Ipv4) {i : Nat} (hi : i < 32) : addr.toUInt32.toNat.testBit (31 - i) = addr.bit i := by
  obtain ⟨a, b, c, d, rfl⟩ := addr.exists_bytes
  rw [Ipv4.toNat_toUInt32, Ipv4.bit, testBit_byte, testBit_byte, testBit_byte]
  obtain h | h | h | h : i / 8 = 0 ∨ i / 8 = 1 ∨ i / 8 = 2 ∨ i / 8 = 3 := by omega
  · rw [h, if_neg (by omega), if_neg (by omega), if_neg (by omega), show 31 - i - 8 - 8 - 8 = 7 - i % 8 by omega]
    rfl
  · rw [h, if_neg (by omega), if_neg (by omega), if_pos (by omega), show 31 - i - 8 - 8 = 7 - i % 8 by omega]
    rfl
  · rw [h, if_neg (by omega), if_pos (by omega), show 31 - i - 8 = 7 - i % 8 by omega]
    rfl
  · rw [h, if_pos (by omega), show 31 - i = 7 - i % 8 by omega]
    rfl

/-- What an address match means. -/
def AddrMatch.Holds (addr : Ipv4) : AddrMatch → Prop
  | any => True
  | exact a => a = addr
  | subnet net pfxLen => ∀ i, i < min pfxLen.toNat 32 → net.bit i = addr.bit i

instance (addr : Ipv4) (m : AddrMatch) : Decidable (m.Holds addr) := by
  cases m with
  | any => exact inferInstanceAs (Decidable True)
  | exact a => exact inferInstanceAs (Decidable (a = addr))
  | subnet net pfxLen => exact inferInstanceAs (Decidable (∀ i, i < min pfxLen.toNat 32 → net.bit i = addr.bit i))

/-- The mask of a prefix, with overflow checks. -/
def mask? (pfxLen : UInt8) : Option UInt32 :=
  if pfxLen ≥ 32 then some 0xFFFFFFFF
  else do
    let bit ← checkedShl32 1 (32 - pfxLen)
    let low ← checkedSub32 bit 1
    some (~~~low)

/-- `AddrMatch.matches` with overflow checks. -/
def AddrMatch.matches? (addr : Ipv4) : AddrMatch → Option Bool
  | any => some true
  | exact a => some (a == addr)
  | subnet net pfxLen => do
    let mask ← mask? pfxLen
    some (net.toUInt32 &&& mask == addr.toUInt32 &&& mask)

/-- The match is a subnet of all addresses. -/
def AddrMatch.Everywhere : AddrMatch → Prop
  | any => False
  | exact _ => False
  | subnet _ pfxLen => pfxLen = 0

/-- The mask has the first bits. For a prefix of 0 it takes a shift by 32. -/
theorem mask?_spec (pfxLen : UInt8) : (pfxLen = 0 → mask? pfxLen = none) ∧
    (pfxLen ≠ 0 → ∃ mask, mask? pfxLen = some mask ∧
      ∀ i, i < 32 → mask.toNat.testBit (31 - i) = decide (i < min pfxLen.toNat 32)) := by
  constructor
  · rintro rfl
    rfl
  · intro hpos
    have hpos' : 0 < pfxLen.toNat := by
      rw [Nat.pos_iff_ne_zero]
      exact fun h => hpos (UInt8.toNat_inj.mp h)
    rw [mask?]
    by_cases hfull : pfxLen ≥ 32
    · have hfull' : 32 ≤ pfxLen.toNat := UInt8.le_iff_toNat_le.mp hfull
      rw [if_pos hfull]
      refine ⟨_, rfl, fun i hi => ?_⟩
      change (2 ^ 32 - 1).testBit (31 - i) = _
      rw [Nat.testBit_two_pow_sub_one, decide_eq_true (by omega), decide_eq_true (by omega)]
    · have hshort : pfxLen.toNat < 32 := by
        rw [ge_iff_le, UInt8.le_iff_toNat_le] at hfull
        exact Nat.not_le.mp hfull
      have hsub : (32 - pfxLen).toNat = 32 - pfxLen.toNat :=
        UInt8.toNat_sub_of_le _ _ (UInt8.le_iff_toNat_le.mpr hshort.le)
      have hwidth : 32 - pfxLen < 32 := by
        rw [UInt8.lt_iff_toNat_lt, hsub]
        change 32 - pfxLen.toNat < 32
        omega
      have hbit : ((1 : UInt32) <<< (32 - pfxLen).toUInt32).toNat = 2 ^ (32 - pfxLen.toNat) := by
        rw [UInt32.toNat_shiftLeft, UInt8.toNat_toUInt32, hsub]
        change 1 <<< ((32 - pfxLen.toNat) % 32) % 2 ^ 32 = _
        rw [Nat.mod_eq_of_lt (by omega : 32 - pfxLen.toNat < 32), Nat.one_shiftLeft,
          Nat.mod_eq_of_lt (Nat.pow_lt_pow_right (by decide) (by omega))]
      have hone : (1 : UInt32).toNat ≤ ((1 : UInt32) <<< (32 - pfxLen).toUInt32).toNat := by
        rw [hbit]
        exact Nat.one_le_two_pow
      rw [if_neg hfull, checkedShl32, if_pos hwidth, Option.bind_eq_bind, Option.bind_some, checkedSub32, if_pos hone,
        Option.bind_some]
      refine ⟨_, rfl, fun i hi => ?_⟩
      rw [UInt32.toNat_not, UInt32.toNat_sub_of_le _ _ (UInt32.le_iff_toNat_le.mpr hone), hbit]
      have hlow : 2 ^ (32 - pfxLen.toNat) - 1 < 2 ^ 32 :=
        (Nat.sub_le _ _).trans_lt (Nat.pow_lt_pow_right (by decide) (by omega))
      change (2 ^ 32 - 1 - (2 ^ (32 - pfxLen.toNat) - 1)).testBit (31 - i) = _
      rw [Nat.sub_sub, Nat.add_comm 1, Nat.testBit_two_pow_sub_succ hlow, Nat.testBit_two_pow_sub_one,
        decide_eq_true (by omega : 31 - i < 32), Bool.true_and, ← decide_not, decide_eq_decide]
      omega

/-- With overflow checks a match gives what it means, unless it is a subnet of all addresses. -/
theorem AddrMatch.matches?_eq_some {addr : Ipv4} {m : AddrMatch} {r : Bool} :
    m.matches? addr = some r ↔ ¬ m.Everywhere ∧ decide (m.Holds addr) = r := by
  cases m with
  | any => exact ⟨fun h => ⟨not_false, Option.some.inj h⟩, fun h => congrArg some h.2⟩
  | exact a =>
    have heq : (a == addr) = decide ((exact a).Holds addr) := by
      rw [Bool.eq_iff_iff, beq_iff_eq, decide_eq_true_eq, Holds]
    rw [matches?, Option.some.injEq, heq]
    exact ⟨fun h => ⟨not_false, h⟩, fun h => h.2⟩
  | subnet net pfxLen =>
    obtain ⟨hzero, hmask⟩ := mask?_spec pfxLen
    by_cases hpos : pfxLen = 0
    · rw [matches?, hzero hpos]
      exact ⟨fun h => (nomatch h), fun h => absurd hpos h.1⟩
    · obtain ⟨mask, heq, hbits⟩ := hmask hpos
      have hagree : (net.toUInt32 &&& mask == addr.toUInt32 &&& mask) = decide ((subnet net pfxLen).Holds addr) := by
        rw [Bool.eq_iff_iff, beq_iff_eq, decide_eq_true_eq, ← UInt32.toNat_inj, UInt32.toNat_and, UInt32.toNat_and, Holds]
        constructor
        · intro h i hi
          have hi' : i < 32 := by omega
          have hbit := congrArg (Nat.testBit · (31 - i)) h
          simp only [Nat.testBit_and, hbits i hi', decide_eq_true hi, Bool.and_true] at hbit
          rwa [net.testBit_toUInt32 hi', addr.testBit_toUInt32 hi'] at hbit
        · intro h
          refine Nat.eq_of_testBit_eq fun j => ?_
          rw [Nat.testBit_and, Nat.testBit_and]
          by_cases hj : j < 32
          · have hback : 31 - (31 - j) = j := by omega
            have hmaskBit := hbits (31 - j) (by omega)
            have hnet := net.testBit_toUInt32 (i := 31 - j) (by omega)
            have haddr := addr.testBit_toUInt32 (i := 31 - j) (by omega)
            rw [hback] at hmaskBit hnet haddr
            rw [hmaskBit, hnet, haddr]
            by_cases hin : 31 - j < min pfxLen.toNat 32
            · rw [h (31 - j) hin]
            · rw [decide_eq_false hin, Bool.and_false, Bool.and_false]
          · have htop : ∀ n : UInt32, n.toNat.testBit j = false := fun n =>
              Nat.testBit_lt_two_pow (n.toNat_lt.trans_le (Nat.pow_le_pow_right (by decide) (Nat.not_lt.mp hj)))
            simp only [htop, Bool.false_and]
      rw [matches?, heq, Option.bind_eq_bind, Option.bind_some, hagree, Option.some.injEq]
      exact ⟨fun h => ⟨hpos, h⟩, fun h => h.2⟩

/-! ## Rules -/

/-- What a port match means. -/
def PortMatch.Holds (port : UInt16) : PortMatch → Prop
  | any => True
  | single p => port = p
  | range lo hi => lo ≤ port ∧ port ≤ hi

theorem PortMatch.matches_iff {port : UInt16} {m : PortMatch} : m.matches port = true ↔ m.Holds port := by
  cases m with
  | any => exact iff_of_true rfl trivial
  | single p => rw [PortMatch.matches, beq_iff_eq, Holds, eq_comm]
  | range lo hi => rw [PortMatch.matches, Bool.and_eq_true, decide_eq_true_eq, decide_eq_true_eq, Holds, ge_iff_le]

namespace FirewallRule

/-- The rule is on, and for packets of this direction and protocol. -/
def Concerns (rule : FirewallRule) (pkt : PacketInfo) (direction : Direction) : Prop :=
  rule.enabled = true ∧ (rule.direction = .both ∨ rule.direction = direction) ∧
    (rule.protocol = .any ∨ rule.protocol = pkt.protocol)

instance (rule : FirewallRule) (pkt : PacketInfo) (direction : Direction) : Decidable (rule.Concerns pkt direction) :=
  inferInstanceAs (Decidable (_ ∧ _))

/-- All conditions of an enabled rule hold. -/
structure Applies (rule : FirewallRule) (pkt : PacketInfo) (direction : Direction) : Prop where
  concerns : rule.Concerns pkt direction
  srcAddr : rule.srcAddr.Holds pkt.srcAddr
  dstAddr : rule.dstAddr.Holds pkt.dstAddr
  srcPort : rule.srcPort.Holds pkt.srcPort
  dstPort : rule.dstPort.Holds pkt.dstPort
  appId : ∀ ruleApp, rule.appId = some ruleApp → pkt.appId = some ruleApp

/-- The port and app conditions, behind the addresses. -/
def matchesRest (rule : FirewallRule) (pkt : PacketInfo) : Bool :=
  rule.srcPort.matches pkt.srcPort && rule.dstPort.matches pkt.dstPort
    && match rule.appId with
      | some ruleApp => pkt.appId == some ruleApp
      | none => true

/-- `matchesPacket` with overflow checks. -/
def matchesPacket? (rule : FirewallRule) (pkt : PacketInfo) (direction : Direction) : Option Bool :=
  if !rule.enabled then some false
  else if !(rule.direction == .both || rule.direction == direction) then some false
  else if rule.protocol != .any && rule.protocol != pkt.protocol then some false
  else do
    let src ← rule.srcAddr.matches? pkt.srcAddr
    if !src then some false
    else do
      let dst ← rule.dstAddr.matches? pkt.dstAddr
      if !dst then some false else some (rule.matchesRest pkt)

/-- The packet gets as far as a subnet of all addresses. -/
def Trips (rule : FirewallRule) (pkt : PacketInfo) (direction : Direction) : Prop :=
  rule.Concerns pkt direction ∧
    (rule.srcAddr.Everywhere ∨ (rule.srcAddr.Holds pkt.srcAddr ∧ rule.dstAddr.Everywhere))

variable {rule : FirewallRule} {pkt : PacketInfo} {direction : Direction}

theorem matchesRest_iff : rule.matchesRest pkt = true ↔ rule.srcPort.Holds pkt.srcPort ∧ rule.dstPort.Holds pkt.dstPort ∧
    ∀ ruleApp, rule.appId = some ruleApp → pkt.appId = some ruleApp := by
  rw [matchesRest, Bool.and_eq_true, Bool.and_eq_true, PortMatch.matches_iff, PortMatch.matches_iff, and_assoc]
  cases rule.appId with
  | none => simp
  | some ruleApp => simp

theorem applies_iff : rule.Applies pkt direction ↔ rule.Concerns pkt direction ∧ rule.srcAddr.Holds pkt.srcAddr ∧
    rule.dstAddr.Holds pkt.dstAddr ∧ rule.matchesRest pkt = true := by
  rw [matchesRest_iff]
  exact ⟨fun h => ⟨h.concerns, h.srcAddr, h.dstAddr, h.srcPort, h.dstPort, h.appId⟩,
    fun ⟨hc, hs, hd, hsp, hdp, ha⟩ => ⟨hc, hs, hd, hsp, hdp, ha⟩⟩

instance (rule : FirewallRule) (pkt : PacketInfo) (direction : Direction) : Decidable (rule.Applies pkt direction) :=
  decidable_of_iff _ applies_iff.symm

/-- The address conditions and the rest. -/
def matchesBody? (rule : FirewallRule) (pkt : PacketInfo) : Option Bool := do
  let src ← rule.srcAddr.matches? pkt.srcAddr
  if !src then some false
  else do
    let dst ← rule.dstAddr.matches? pkt.dstAddr
    if !dst then some false else some (rule.matchesRest pkt)

theorem matchesPacket?_of_concerns (h : rule.Concerns pkt direction) :
    rule.matchesPacket? pkt direction = rule.matchesBody? pkt := by
  obtain ⟨hon, hdir, hproto⟩ := h
  have hdir' : (rule.direction == .both || rule.direction == direction) = true := by simpa using hdir
  have hproto' : (rule.protocol != .any && rule.protocol != pkt.protocol) = false := by
    rcases hproto with h | h <;> simp [h]
  rw [matchesPacket?, hon, hdir', hproto']
  rfl

theorem matchesPacket?_of_not_concerns (h : ¬ rule.Concerns pkt direction) :
    rule.matchesPacket? pkt direction = some false := by
  rw [matchesPacket?]
  split
  · rfl
  · split
    · rfl
    · split
      · rfl
      · rename_i hon hdir hproto
        refine absurd ⟨by simpa using hon, or_iff_not_imp_left.mpr (by simpa using hdir), ?_⟩ h
        by_contra hne
        exact hproto (by simpa [not_or] using hne)

theorem matchesBody?_eq_some {r : Bool} : rule.matchesBody? pkt = some r ↔
    ¬ (rule.srcAddr.Everywhere ∨ (rule.srcAddr.Holds pkt.srcAddr ∧ rule.dstAddr.Everywhere)) ∧
      decide (rule.srcAddr.Holds pkt.srcAddr ∧ rule.dstAddr.Holds pkt.dstAddr ∧ rule.matchesRest pkt = true) = r := by
  rw [matchesBody?, Option.bind_eq_bind, Option.bind_eq_some_iff]
  simp only [AddrMatch.matches?_eq_some]
  by_cases hsrc : rule.srcAddr.Holds pkt.srcAddr
  · simp only [hsrc, decide_true, true_and]
    constructor
    · rintro ⟨_, ⟨heverywhere, rfl⟩, hrest⟩
      rw [if_neg (by decide), Option.bind_eq_some_iff] at hrest
      obtain ⟨_, hdst, hlast⟩ := hrest
      obtain ⟨heverywhere', rfl⟩ := AddrMatch.matches?_eq_some.mp hdst
      refine ⟨not_or.mpr ⟨heverywhere, heverywhere'⟩, ?_⟩
      by_cases hholds : rule.dstAddr.Holds pkt.dstAddr
      · simpa [hholds] using hlast
      · simpa [hholds] using hlast
    · rintro ⟨hnot, hr⟩
      rw [not_or] at hnot
      refine ⟨_, ⟨hnot.1, rfl⟩, ?_⟩
      rw [if_neg (by decide), Option.bind_eq_some_iff]
      refine ⟨_, AddrMatch.matches?_eq_some.mpr ⟨hnot.2, rfl⟩, ?_⟩
      by_cases hholds : rule.dstAddr.Holds pkt.dstAddr
      · simpa [hholds] using hr
      · simpa [hholds] using hr
  · simp only [hsrc, decide_false, false_and, or_false]
    constructor
    · rintro ⟨_, ⟨heverywhere, rfl⟩, hrest⟩
      exact ⟨heverywhere, Option.some.inj hrest⟩
    · rintro ⟨heverywhere, rfl⟩
      exact ⟨_, ⟨heverywhere, rfl⟩, rfl⟩

/-- With overflow checks a rule tells whether it applies, unless it gets to a subnet of all addresses. -/
theorem matchesPacket?_eq_some {r : Bool} : rule.matchesPacket? pkt direction = some r ↔
    ¬ rule.Trips pkt direction ∧ decide (rule.Applies pkt direction) = r := by
  by_cases hc : rule.Concerns pkt direction
  · have happlies : decide (rule.Applies pkt direction) =
        decide (rule.srcAddr.Holds pkt.srcAddr ∧ rule.dstAddr.Holds pkt.dstAddr ∧ rule.matchesRest pkt = true) := by
      rw [decide_eq_decide, applies_iff]
      exact and_iff_right hc
    rw [matchesPacket?_of_concerns hc, matchesBody?_eq_some, Trips, happlies]
    exact and_congr_left' (not_congr (and_iff_right hc).symm)
  · rw [matchesPacket?_of_not_concerns hc, Option.some.injEq, Trips, decide_eq_false fun h => hc h.concerns]
    exact ⟨fun h => ⟨fun h' => hc h'.1, h⟩, fun h => h.2⟩

end FirewallRule

/-! ## The packet filter with overflow checks -/

/-- `touch` with overflow checks. -/
def ConnTracker.touch? (conn : TrackedConn) (now : UInt64) : Option TrackedConn := do
  let packets ← checkedAdd64 conn.packets 1
  some { conn with lastSeen := now, packets, state := if conn.state = .new then .established else conn.state }

/-- `track` with overflow checks. -/
def ConnTracker.track? (ct : ConnTracker) (pkt : PacketInfo) (now : UInt64) : Option (ConnState × ConnTracker) :=
  match ct.table[fwd pkt]? with
  | some conn => do
    let conn ← touch? conn now
    some (conn.state, { ct with table := ct.table.insert (fwd pkt) conn })
  | none =>
    match ct.table[rev pkt]? with
    | some conn => do
      let conn ← touch? conn now
      some (.related, { ct with table := ct.table.insert (rev pkt) conn })
    | none =>
      if ct.table.size ≥ ct.maxEntries then some (.new, ct)
      else
        let conn : TrackedConn :=
          { state := .new, lastSeen := now, packets := 1, timeoutSecs := pkt.protocol.timeoutSecs }
        some (.new, { ct with table := ct.table.insert (fwd pkt) conn })

namespace FirewallStats

def allowed? (s : FirewallStats) (pkt : PacketInfo) : Option FirewallStats := do
  let packetsAllowed ← checkedAdd64 s.packetsAllowed 1
  let bytesAllowed ← checkedAdd64 s.bytesAllowed pkt.length
  some { s with packetsAllowed, bytesAllowed }

def denied? (s : FirewallStats) (pkt : PacketInfo) : Option FirewallStats := do
  let packetsDenied ← checkedAdd64 s.packetsDenied 1
  let bytesDenied ← checkedAdd64 s.bytesDenied pkt.length
  some { s with packetsDenied, bytesDenied }

def conntrackAllowed? (s : FirewallStats) (pkt : PacketInfo) : Option FirewallStats := do
  let packetsConntrackAllowed ← checkedAdd64 s.packetsConntrackAllowed 1
  { s with packetsConntrackAllowed }.allowed? pkt

def rateLimited? (s : FirewallStats) (pkt : PacketInfo) : Option FirewallStats := do
  let packetsRateLimited ← checkedAdd64 s.packetsRateLimited 1
  { s with packetsRateLimited }.denied? pkt

end FirewallStats

/-- The loop over the rules: the first that matches, and the rules with its hit counted. -/
def walk? (pkt : PacketInfo) (direction : Direction) : List FirewallRule → Option (Option (FirewallRule × List FirewallRule))
  | [] => some none
  | rule :: rules => do
    let hit ← rule.matchesPacket? pkt direction
    if hit then
      let hitCount ← checkedAdd64 rule.hitCount 1
      some (some (rule, { rule with hitCount } :: rules))
    else
      let rest ← walk? pkt direction rules
      some (rest.map fun r => (r.1, rule :: r.2))

namespace Firewall

/-- `record` with overflow checks. -/
def record? (fw : Firewall) (pkt : PacketInfo) (direction : Direction) (ruleId now : UInt64) : Verdict → Option Firewall
  | .allow => do
    let stats ← fw.stats.allowed? pkt
    some { fw with stats }
  | .deny => do
    let stats ← fw.stats.denied? pkt
    some { fw with stats }
  | .denyAndLog => do
    let stats ← fw.stats.denied? pkt
    some ({ fw with stats }.logDenied pkt direction ruleId now)

/-- `judge` with overflow checks. -/
def judge? (fw : Firewall) (pkt : PacketInfo) (direction : Direction) (now : UInt64) : Option (Verdict × Firewall) := do
  match ← walk? pkt direction fw.rules with
  | some (rule, rules) =>
    let fw ← { fw with rules }.record? pkt direction rule.id now rule.action
    some (rule.action, fw)
  | none =>
    let default := fw.defaultVerdict direction
    let fw ← fw.record? pkt direction 0 now default
    some (default, fw)

/-- `limit` with overflow checks. -/
def limit? (fw : Firewall) (pkt : PacketInfo) (direction : Direction) (now : UInt64) : Option (Bool × Firewall) :=
  if direction = .inbound then do
    let (pass, rateLimiter) ← fw.rateLimiter.check? pkt.srcAddr (now * 1000)
    some (pass, { fw with rateLimiter })
  else some (true, fw)

/-- `filterPacket` with overflow checks. -/
def filterPacket? (fw : Firewall) (pkt : PacketInfo) (direction : Direction) (now : UInt64) : Option (Verdict × Firewall) :=
  if !fw.enabled then some (.allow, fw)
  else do
    let (ct, conntrack) ← fw.conntrack.track? pkt now
    let fw := { fw with conntrack }
    if ct = .established ∨ ct = .related then
      let stats ← fw.stats.conntrackAllowed? pkt
      some (.allow, { fw with stats })
    else
      let (pass, fw) ← fw.limit? pkt direction now
      if !pass then
        let stats ← fw.stats.rateLimited? pkt
        some (.deny, { fw with stats })
      else fw.judge? pkt direction now

/-! ## When it returns the verdict of the rules -/

end Firewall

/-- The first enabled rule whose conditions all hold. -/
def firstApplying (pkt : PacketInfo) (direction : Direction) (rules : List FirewallRule) : Option FirewallRule :=
  rules.find? fun rule => decide (rule.Applies pkt direction)

namespace Firewall

/-- The action of the first rule that applies, or the direction's default. -/
def verdict (fw : Firewall) (pkt : PacketInfo) (direction : Direction) : Verdict :=
  match firstApplying pkt direction fw.rules with
  | some rule => rule.action
  | none => fw.defaultVerdict direction

/-- The packet belongs to no tracked flow. -/
def Untracked (fw : Firewall) (pkt : PacketInfo) : Prop :=
  fw.conntrack.table[ConnTracker.fwd pkt]? = none ∧ fw.conntrack.table[ConnTracker.rev pkt]? = none

/-- The rate limiter does not turn the packet away. -/
def WithinRate (fw : Firewall) (pkt : PacketInfo) (direction : Direction) (now : UInt64) : Prop :=
  direction = .inbound → ∀ r, fw.rateLimiter.check? pkt.srcAddr (now * 1000) = some r → r.1 = true

end Firewall

/-- Walking the rules for a packet overflows nowhere: none gets to a subnet of all addresses before one
applies, and that one's hits can be counted. -/
structure Walks (pkt : PacketInfo) (direction : Direction) (rules : List FirewallRule) : Prop where
  trips : ∀ pre rule post, rules = pre ++ rule :: post → (∀ r ∈ pre, ¬ r.Applies pkt direction) →
    ¬ rule.Trips pkt direction
  hits : ∀ rule, firstApplying pkt direction rules = some rule → rule.hitCount.toNat + 1 < 2 ^ 64

/-- The counters of a verdict can be raised. -/
def FirewallStats.HasRoom (s : FirewallStats) (pkt : PacketInfo) : Verdict → Prop
  | .allow => s.packetsAllowed.toNat + 1 < 2 ^ 64 ∧ s.bytesAllowed.toNat + pkt.length.toNat < 2 ^ 64
  | .deny => s.packetsDenied.toNat + 1 < 2 ^ 64 ∧ s.bytesDenied.toNat + pkt.length.toNat < 2 ^ 64
  | .denyAndLog => s.packetsDenied.toNat + 1 < 2 ^ 64 ∧ s.bytesDenied.toNat + pkt.length.toNat < 2 ^ 64

/-- What the filter needs for a packet it decides by its rules. -/
structure Firewall.Ready (fw : Firewall) (pkt : PacketInfo) (direction : Direction) (now : UInt64) : Prop where
  limiter : direction = .inbound → fw.rateLimiter.Fits pkt.srcAddr (now * 1000)
  rules : Walks pkt direction fw.rules
  stats : fw.stats.HasRoom pkt (fw.verdict pkt direction)

section Walk

variable {pkt : PacketInfo} {direction : Direction}

theorem firstApplying_of_applies {rule : FirewallRule} (h : rule.Applies pkt direction) (rules : List FirewallRule) :
    firstApplying pkt direction (rule :: rules) = some rule := by
  rw [firstApplying, List.find?_cons, decide_eq_true h]

theorem firstApplying_of_not_applies {rule : FirewallRule} (h : ¬ rule.Applies pkt direction)
    (rules : List FirewallRule) : firstApplying pkt direction (rule :: rules) = firstApplying pkt direction rules := by
  rw [firstApplying, List.find?_cons, decide_eq_false h]
  rfl

theorem walks_nil : Walks pkt direction [] :=
  ⟨fun pre rule post heq => by simp at heq, fun rule h => nomatch h⟩

theorem walks_cons {rule : FirewallRule} {rules : List FirewallRule} : Walks pkt direction (rule :: rules) ↔
    ¬ rule.Trips pkt direction ∧
      if rule.Applies pkt direction then rule.hitCount.toNat + 1 < 2 ^ 64 else Walks pkt direction rules := by
  constructor
  · intro h
    refine ⟨h.trips [] rule rules rfl fun _ hr => absurd hr List.not_mem_nil, ?_⟩
    split
    · rename_i happlies
      exact h.hits rule (firstApplying_of_applies happlies rules)
    · rename_i hnot
      refine ⟨fun pre r post heq hpre => ?_, fun r hr => h.hits r ?_⟩
      · exact h.trips (rule :: pre) r post (by rw [heq, List.cons_append]) (List.forall_mem_cons.mpr ⟨hnot, hpre⟩)
      · rw [firstApplying_of_not_applies hnot]
        exact hr
  · rintro ⟨htrips, hrest⟩
    split at hrest
    · rename_i happlies
      refine ⟨fun pre r post heq hpre => ?_, fun r hr => ?_⟩
      · cases pre with
        | nil => exact (List.cons.inj heq).1 ▸ htrips
        | cons x pre =>
          rw [← (List.cons.inj heq).1] at hpre
          exact absurd happlies (hpre rule List.mem_cons_self)
      · rw [firstApplying_of_applies happlies] at hr
        exact Option.some.inj hr ▸ hrest
    · rename_i hnot
      refine ⟨fun pre r post heq hpre => ?_, fun r hr => hrest.hits r ?_⟩
      · cases pre with
        | nil => exact (List.cons.inj heq).1 ▸ htrips
        | cons x pre =>
          exact hrest.trips pre r post (List.cons.inj heq).2 fun r' hr' => hpre r' (List.mem_cons_of_mem x hr')
      · rwa [firstApplying_of_not_applies hnot] at hr

/-- The walk finds the first rule that applies, exactly when nothing overflows on the way. -/
theorem walk?_spec (rules : List FirewallRule) :
    (Walks pkt direction rules → ∃ r, walk? pkt direction rules = some r ∧
      r.map Prod.fst = firstApplying pkt direction rules) ∧
    (∀ r, walk? pkt direction rules = some r → Walks pkt direction rules) := by
  induction rules with
  | nil => exact ⟨fun _ => ⟨none, rfl, rfl⟩, fun _ _ => walks_nil⟩
  | cons rule rules ih =>
    have hmatch := fun r => @FirewallRule.matchesPacket?_eq_some rule pkt direction r
    rw [walks_cons]
    constructor
    · rintro ⟨htrips, hrest⟩
      rw [walk?, bind_of_some ((hmatch _).mpr ⟨htrips, rfl⟩)]
      by_cases happlies : rule.Applies pkt direction
      · rw [if_pos happlies] at hrest
        rw [if_pos (decide_eq_true happlies), bind_of_some (checkedAdd64_eq_some.mpr ⟨hrest, rfl⟩),
          firstApplying_of_applies happlies]
        exact ⟨_, rfl, rfl⟩
      · rw [if_neg happlies] at hrest
        obtain ⟨r, hwalk, hfind⟩ := ih.1 hrest
        rw [if_neg (by simpa using happlies), bind_of_some hwalk, firstApplying_of_not_applies happlies, ← hfind]
        refine ⟨_, rfl, ?_⟩
        cases r <;> rfl
    · intro r hwalk
      rw [walk?, Option.bind_eq_bind, Option.bind_eq_some_iff] at hwalk
      obtain ⟨hit, hhit, hwalk⟩ := hwalk
      obtain ⟨htrips, rfl⟩ := (hmatch _).mp hhit
      refine ⟨htrips, ?_⟩
      by_cases happlies : rule.Applies pkt direction
      · rw [if_pos (decide_eq_true happlies), Option.bind_eq_bind, Option.bind_eq_some_iff] at hwalk
        obtain ⟨_, hcount, -⟩ := hwalk
        rw [if_pos happlies]
        exact (checkedAdd64_eq_some.mp hcount).1
      · rw [if_neg (by simpa using happlies), Option.bind_eq_bind, Option.bind_eq_some_iff] at hwalk
        obtain ⟨_, hrest, -⟩ := hwalk
        rw [if_neg happlies]
        exact ih.2 _ hrest

end Walk

/-- The counters are raised exactly when they have room. -/
theorem Firewall.record?_isSome_iff (fw : Firewall) (pkt : PacketInfo) (direction : Direction) (ruleId now : UInt64)
    (v : Verdict) : (fw.record? pkt direction ruleId now v).isSome = true ↔ fw.stats.HasRoom pkt v := by
  have hallowed : (∃ s, fw.stats.allowed? pkt = some s) ↔ fw.stats.HasRoom pkt .allow := by
    simp only [FirewallStats.allowed?, Option.bind_eq_bind, Option.bind_eq_some_iff, checkedAdd64_eq_some, Option.some.injEq]
    exact ⟨fun ⟨_, _, ⟨hp, _⟩, _, ⟨hb, _⟩, _⟩ => ⟨hp, hb⟩, fun ⟨hp, hb⟩ => ⟨_, _, ⟨hp, rfl⟩, _, ⟨hb, rfl⟩, rfl⟩⟩
  have hdenied : (∃ s, fw.stats.denied? pkt = some s) ↔ fw.stats.HasRoom pkt .deny := by
    simp only [FirewallStats.denied?, Option.bind_eq_bind, Option.bind_eq_some_iff, checkedAdd64_eq_some, Option.some.injEq]
    exact ⟨fun ⟨_, _, ⟨hp, _⟩, _, ⟨hb, _⟩, _⟩ => ⟨hp, hb⟩, fun ⟨hp, hb⟩ => ⟨_, _, ⟨hp, rfl⟩, _, ⟨hb, rfl⟩, rfl⟩⟩
  cases v with
  | allow =>
    rw [record?, Option.isSome_iff_exists, ← hallowed]
    simp only [Option.bind_eq_bind, Option.bind_eq_some_iff, Option.some.injEq]
    exact ⟨fun ⟨_, s, hs, _⟩ => ⟨s, hs⟩, fun ⟨s, hs⟩ => ⟨_, s, hs, rfl⟩⟩
  | deny =>
    rw [record?, Option.isSome_iff_exists, ← hdenied]
    simp only [Option.bind_eq_bind, Option.bind_eq_some_iff, Option.some.injEq]
    exact ⟨fun ⟨_, s, hs, _⟩ => ⟨s, hs⟩, fun ⟨s, hs⟩ => ⟨_, s, hs, rfl⟩⟩
  | denyAndLog =>
    have hroom : fw.stats.HasRoom pkt .denyAndLog ↔ fw.stats.HasRoom pkt .deny := Iff.rfl
    rw [record?, Option.isSome_iff_exists, hroom, ← hdenied]
    simp only [Option.bind_eq_bind, Option.bind_eq_some_iff, Option.some.injEq]
    exact ⟨fun ⟨_, s, hs, _⟩ => ⟨s, hs⟩, fun ⟨s, hs⟩ => ⟨_, s, hs, rfl⟩⟩

namespace Firewall

variable {fw : Firewall} {pkt : PacketInfo} {direction : Direction} {now : UInt64}

theorem judge?_iff : (fw.judge? pkt direction now).map Prod.fst = some (fw.verdict pkt direction) ↔
    Walks pkt direction fw.rules ∧ fw.stats.HasRoom pkt (fw.verdict pkt direction) := by
  obtain ⟨hforth, hback⟩ := @walk?_spec pkt direction fw.rules
  by_cases hwalks : Walks pkt direction fw.rules
  · obtain ⟨r, hwalk, hfind⟩ := hforth hwalks
    rw [judge?, bind_of_some hwalk, and_iff_right hwalks, verdict, ← hfind]
    cases r with
    | none =>
      simp only [Option.map_none]
      rw [← record?_isSome_iff fw pkt direction 0 now (fw.defaultVerdict direction)]
      cases fw.record? pkt direction 0 now (fw.defaultVerdict direction) with
      | none => exact iff_of_false (fun h => nomatch h) Bool.false_ne_true
      | some fw' => exact iff_of_true rfl rfl
    | some r =>
      simp only [Option.map_some]
      have hroom := record?_isSome_iff { fw with rules := r.2 } pkt direction r.1.id now r.1.action
      rw [← show ({ fw with rules := r.2 } : Firewall).stats = fw.stats from rfl, ← hroom]
      cases ({ fw with rules := r.2 } : Firewall).record? pkt direction r.1.id now r.1.action with
      | none => exact iff_of_false (fun h => nomatch h) Bool.false_ne_true
      | some fw' => exact iff_of_true rfl rfl
  · refine iff_of_false (fun h => ?_) fun h => hwalks h.1
    rw [judge?] at h
    cases hwalk : walk? pkt direction fw.rules with
    | none =>
      rw [hwalk] at h
      exact nomatch h
    | some r => exact hwalks (hback r hwalk)

theorem track?_of_untracked (h : fw.Untracked pkt) (now : UInt64) :
    ∃ conntrack, fw.conntrack.track? pkt now = some (.new, conntrack) := by
  rw [ConnTracker.track?, h.1, h.2]
  dsimp only
  split
  · exact ⟨_, rfl⟩
  · exact ⟨_, rfl⟩

/-- A packet within its rate passes the limiter, exactly when its refill fits. -/
theorem limit?_spec (hrate : fw.WithinRate pkt direction now) :
    ((direction = .inbound → fw.rateLimiter.Fits pkt.srcAddr (now * 1000)) →
      ∃ rateLimiter, fw.limit? pkt direction now = some (true, { fw with rateLimiter })) ∧
    (∀ r, fw.limit? pkt direction now = some r → direction = .inbound → fw.rateLimiter.Fits pkt.srcAddr (now * 1000)) := by
  rw [limit?]
  by_cases hin : direction = .inbound
  · rw [if_pos hin]
    constructor
    · intro hfits
      have hcheck := RateLimiter.check?_eq_some.mpr ⟨hfits hin, rfl⟩
      have hpass := hrate hin _ hcheck
      rw [bind_of_some hcheck]
      refine ⟨(fw.rateLimiter.check pkt.srcAddr (now * 1000)).2, ?_⟩
      rw [← hpass]
    · intro r hr _
      rw [Option.bind_eq_bind, Option.bind_eq_some_iff] at hr
      obtain ⟨_, hcheck, -⟩ := hr
      exact (RateLimiter.check?_eq_some.mp hcheck).1
  · rw [if_neg hin]
    exact ⟨fun _ => ⟨fw.rateLimiter, rfl⟩, fun _ _ h => absurd h hin⟩

/-- For a packet of no tracked flow that the limiter lets pass, the filter returns the verdict of the rules
without an overflow exactly when it is on and ready, or it is off and the rules let the packet pass. -/
theorem filterPacket?_iff (huntracked : fw.Untracked pkt) (hrate : fw.WithinRate pkt direction now) :
    (fw.filterPacket? pkt direction now).map Prod.fst = some (fw.verdict pkt direction) ↔
      if fw.enabled = true then fw.Ready pkt direction now else fw.verdict pkt direction = .allow := by
  by_cases hon : fw.enabled = true
  · obtain ⟨conntrack, htrack⟩ := track?_of_untracked huntracked now
    obtain ⟨hforth, hback⟩ := @limit?_spec { fw with conntrack } pkt direction now hrate
    rw [filterPacket?, if_neg (by rw [hon]; decide), if_pos hon, bind_of_some htrack]
    simp only [reduceCtorEq, or_self, if_false]
    by_cases hfits : direction = .inbound → fw.rateLimiter.Fits pkt.srcAddr (now * 1000)
    · obtain ⟨rateLimiter, hlimit⟩ := hforth hfits
      have hjudge := @judge?_iff { fw with conntrack, rateLimiter } pkt direction now
      rw [bind_of_some hlimit]
      exact hjudge.trans ⟨fun h => ⟨hfits, h.1, h.2⟩, fun h => ⟨h.rules, h.stats⟩⟩
    · refine iff_of_false (fun h => ?_) fun h => hfits h.limiter
      obtain ⟨r, hr, -⟩ := Option.map_eq_some_iff.mp h
      rw [Option.bind_eq_bind, Option.bind_eq_some_iff] at hr
      obtain ⟨_, hlimit, -⟩ := hr
      exact hfits (hback _ hlimit)
  · rw [filterPacket?, if_pos (by simpa using hon), if_neg hon]
    exact ⟨fun h => (Option.some.inj h).symm, fun h => congrArg some h.symm⟩

/-- A firewall with one rule, for what this machine sends. -/
def withRule (srcAddr : AddrMatch) : Firewall :=
  { Firewall.new with
    rules := [{
      id := 1, direction := .outbound, protocol := .any, srcAddr, dstAddr := .any, srcPort := .any, dstPort := .any
      appId := none, action := .deny, description := "", enabled := true, hitCount := 0, createdAt := 0 }] }

theorem untracked_withRule (srcAddr : AddrMatch) (pkt : PacketInfo) : (withRule srcAddr).Untracked pkt :=
  ⟨Std.ExtTreeMap.getElem?_empty, Std.ExtTreeMap.getElem?_empty⟩

/-- A rule for the sources 10.0.0.0/8 denies a packet of 10.0.0.2. -/
theorem filterPacket?_subnet : ((withRule (.subnet #v[10, 0, 0, 0] 8)).filterPacket? World.request .outbound 1).map Prod.fst =
    some ((withRule (.subnet #v[10, 0, 0, 0] 8)).verdict World.request .outbound) := by
  refine (filterPacket?_iff (untracked_withRule _ _) fun (h : Direction.outbound = .inbound) => nomatch h).mpr ?_
  have hon : (withRule (.subnet #v[10, 0, 0, 0] 8)).enabled = true := rfl
  rw [if_pos hon]
  refine ⟨fun h => (nomatch h), walks_cons.mpr ⟨?_, ?_⟩, ?_⟩
  · rintro ⟨-, h | ⟨-, h⟩⟩
    · have hzero : (8 : UInt8) = 0 := h
      exact absurd hzero (by decide)
    · exact h
  · rw [if_pos (by decide)]
    decide
  · have hverdict : (withRule (.subnet #v[10, 0, 0, 0] 8)).verdict World.request .outbound = .deny := by decide
    rw [hverdict]
    exact ⟨by decide, by decide⟩

/-- A rule for all sources, 0.0.0.0/0, applies to every packet that is sent. Its mask is a shift by 32: with
overflow checks there is no verdict, and without them the default lets the packet pass. -/
theorem subnet_of_all_addresses : (withRule (.subnet #v[0, 0, 0, 0] 0)).verdict World.request .outbound = .deny ∧
    (withRule (.subnet #v[0, 0, 0, 0] 0)).filterPacket? World.request .outbound 1 = none ∧
    ((withRule (.subnet #v[0, 0, 0, 0] 0)).filterPacket World.request .outbound 1).1 = .allow :=
  ⟨by decide, rfl, by decide⟩

end Firewall

end AthenaOS.Net

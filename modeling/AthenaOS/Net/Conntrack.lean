import AthenaOS.Lib.Machine
import AthenaOS.Net.Firewall

/-!
# What connection tracking lets through (`kernel/src/firewall.rs`)

A run of the firewall is a sequence of filtered packets, rule changes and
cleanups. Beside the firewall we keep the *history*: every packet with its
verdict and what decided about it, and every cleanup. The history alone says
which flows are open: a rule or the default policy allowed one of its packets,
and no cleanup since has found the flow idle for its timeout.

The table entry is made before the rules are asked, and entries are found by hash
alone. So a step is sound when a packet that gets a new entry is one the limiter
and the rules admit, and when no packet of another flow has had one of its hashes.
-/

namespace AthenaOS.Net

open Lib

/-! ## Flows and histories -/

/-- Same addresses, ports and protocol, or exactly reversed. -/
def PacketInfo.SameFlow (p q : PacketInfo) : Prop :=
  p.protocol = q.protocol ∧
    ((p.srcAddr = q.srcAddr ∧ p.dstAddr = q.dstAddr ∧
        p.srcPort = q.srcPort ∧ p.dstPort = q.dstPort) ∨
      (p.srcAddr = q.dstAddr ∧ p.dstAddr = q.srcAddr ∧
        p.srcPort = q.dstPort ∧ p.dstPort = q.srcPort))

instance (p q : PacketInfo) : Decidable (p.SameFlow q) := inferInstanceAs (Decidable (_ ∧ _))

namespace PacketInfo.SameFlow

variable {p q r : PacketInfo}

theorem refl (p : PacketInfo) : p.SameFlow p := ⟨rfl, .inl ⟨rfl, rfl, rfl, rfl⟩⟩

theorem symm (h : p.SameFlow q) : q.SameFlow p := by
  obtain ⟨hproto, ⟨hs, hd, hsp, hdp⟩ | ⟨hs, hd, hsp, hdp⟩⟩ := h
  · exact ⟨hproto.symm, .inl ⟨hs.symm, hd.symm, hsp.symm, hdp.symm⟩⟩
  · exact ⟨hproto.symm, .inr ⟨hd.symm, hs.symm, hdp.symm, hsp.symm⟩⟩

theorem trans (hpq : p.SameFlow q) (hqr : q.SameFlow r) : p.SameFlow r := by
  obtain ⟨hproto, hpq⟩ := hpq
  obtain ⟨hproto', hqr⟩ := hqr
  refine ⟨hproto.trans hproto', ?_⟩
  obtain ⟨hs, hd, hsp, hdp⟩ | ⟨hs, hd, hsp, hdp⟩ := hpq <;>
    rw [hs, hd, hsp, hdp] <;> tauto

/-- Two packets of one flow have the same two hashes, in one order or the other. -/
theorem hashes (h : p.SameFlow q) :
    (ConnTracker.fwd p = ConnTracker.fwd q ∧ ConnTracker.rev p = ConnTracker.rev q) ∨
      (ConnTracker.fwd p = ConnTracker.rev q ∧ ConnTracker.rev p = ConnTracker.fwd q) := by
  unfold ConnTracker.fwd ConnTracker.rev
  obtain ⟨hproto, ⟨hs, hd, hsp, hdp⟩ | ⟨hs, hd, hsp, hdp⟩⟩ := h
  · exact .inl (by simp only [hproto, hs, hd, hsp, hdp, and_self])
  · exact .inr (by simp only [hproto, hs, hd, hsp, hdp, and_self])

end PacketInfo.SameFlow

/-- What a verdict rests on. -/
inductive Decider where
  | disabled
  | conntrack
  | rateLimiter
  /-- A rule or the default policy. -/
  | policy
  deriving DecidableEq, Repr

inductive Event where
  | packet (pkt : PacketInfo) (verdict : Verdict) (decider : Decider) (now : UInt64)
  | cleanup (now : UInt64)
  deriving DecidableEq

/-- Events, the latest first. -/
abbrev History : Type := List Event

namespace History

/-- The packets of a history. -/
def packets : History → List PacketInfo
  | [] => []
  | .packet pkt .. :: h => pkt :: packets h
  | .cleanup _ :: h => packets h

/-- When the flow of `pkt` had its latest packet. -/
def lastSeen (pkt : PacketInfo) : History → Option UInt64
  | [] => none
  | .packet q _ _ now :: h => if pkt.SameFlow q then some now else lastSeen pkt h
  | .cleanup _ :: h => lastSeen pkt h

/-- A packet of the flow of `pkt` was allowed by a rule or by the default policy,
and the flow has not expired since. -/
def Open (pkt : PacketInfo) : History → Prop
  | [] => False
  | .packet q verdict decider _ :: h =>
    (pkt.SameFlow q ∧ verdict = .allow ∧ decider = .policy) ∨ Open pkt h
  | .cleanup now :: h =>
    Open pkt h ∧ ∀ t, lastSeen pkt h = some t →
      satSub64 now t < pkt.protocol.timeoutSecs.toUInt64

/-- Whatever tracking let through belonged to a flow that was open. -/
def Honest (h : History) : Prop :=
  ∀ pkt verdict now past, .packet pkt verdict .conntrack now :: past <:+ h → Open pkt past

variable {p q : PacketInfo}

theorem lastSeen_congr (hpq : p.SameFlow q) (h : History) : lastSeen p h = lastSeen q h := by
  induction h with
  | nil => rfl
  | cons e h ih =>
    cases e with
    | cleanup now => exact ih
    | packet r verdict decider now =>
      have hr : p.SameFlow r ↔ q.SameFlow r := ⟨hpq.symm.trans, hpq.trans⟩
      simp only [lastSeen, hr, ih]

/-- The packets of a flow agree on whether it is open. -/
theorem open_congr (hpq : p.SameFlow q) (h : History) : Open p h ↔ Open q h := by
  induction h with
  | nil => rfl
  | cons e h ih =>
    cases e with
    | cleanup now => simp only [Open, ih, lastSeen_congr hpq h, hpq.1]
    | packet r verdict decider now =>
      have hr : p.SameFlow r ↔ q.SameFlow r := ⟨hpq.symm.trans, hpq.trans⟩
      simp only [Open, hr, ih]

theorem Honest.cons {h : History} (hh : Honest h) {e : Event}
    (he : ∀ pkt verdict now, e = .packet pkt verdict .conntrack now → Open pkt h) :
    Honest (e :: h) := by
  intro pkt verdict now past hsuffix
  obtain heq | hsuffix := List.suffix_cons_iff.mp hsuffix
  · obtain ⟨rfl, rfl⟩ := List.cons.inj heq
    exact he pkt verdict now rfl
  · exact hh pkt verdict now past hsuffix

end History

/-! ## Runs -/

namespace Firewall

/-- The calls that change rules, profile, log or statistics, not the table. -/
inductive Management where
  | addRule (capTable : CapTable) (nowMs : UInt64 → UInt64) (direction : Direction)
      (protocol : Protocol) (srcAddr dstAddr : AddrMatch) (srcPort dstPort : PortMatch)
      (appId : Option UInt64) (action : Verdict) (description : String)
  | removeRule (capTable : CapTable) (ruleId : UInt64)
  | setRuleEnabled (capTable : CapTable) (ruleId : UInt64) (enabled : Bool)
  | setProfile (capTable : CapTable) (nowMs : UInt64 → UInt64) (profile : FirewallProfile)
  | applyProfile (nowMs : UInt64 → UInt64) (profile : FirewallProfile)
  | flushRules (capTable : CapTable)
  | clearLog
  | resetStats
  | resetRuleCounters

/-- A refused call leaves the firewall as it is. -/
def manage (fw : Firewall) : Management → Firewall
  | .addRule caps nowMs direction protocol srcAddr dstAddr srcPort dstPort appId action desc =>
    match fw.addRule caps nowMs direction protocol srcAddr dstAddr srcPort dstPort appId action
      desc with
    | .ok (_, fw) => fw
    | .error _ => fw
  | .removeRule caps ruleId => (fw.removeRule caps ruleId).toOption.getD fw
  | .setRuleEnabled caps ruleId enabled => (fw.setRuleEnabled caps ruleId enabled).toOption.getD fw
  | .setProfile caps nowMs profile => (fw.setProfile caps nowMs profile).toOption.getD fw
  | .applyProfile nowMs profile => fw.applyProfile nowMs profile
  | .flushRules caps => (fw.flushRules caps).toOption.getD fw
  | .clearLog => fw.clearLog
  | .resetStats => fw.resetStats
  | .resetRuleCounters => fw.resetRuleCounters

/-- The verdict of the first matching rule, else of the default policy. -/
def policyVerdict (fw : Firewall) (pkt : PacketInfo) (direction : Direction) : Verdict :=
  match fw.rules.find? (·.matchesPacket pkt direction) with
  | some rule => rule.action
  | none => fw.defaultVerdict direction

/-- The rate limiter, the rules and the default policy let the packet pass. -/
def admits (fw : Firewall) (pkt : PacketInfo) (direction : Direction) (now : UInt64) : Bool :=
  (fw.limit pkt direction now).1 && fw.policyVerdict pkt direction == .allow

/-- Which part of `filterPacket` decides about a packet. -/
def decider (fw : Firewall) (pkt : PacketInfo) (direction : Direction) (now : UInt64) : Decider :=
  if !fw.enabled then .disabled
  else if (fw.conntrack.track pkt now).1 ≠ .new then .conntrack
  else if !(fw.limit pkt direction now).1 then .rateLimiter
  else .policy

end Firewall

/-- A firewall and what it has done so far. -/
structure World where
  firewall : Firewall
  history : History

inductive Call where
  | filterPacket (pkt : PacketInfo) (direction : Direction) (now : UInt64)
  | manage (op : Firewall.Management)
  | cleanup (now : UInt64)

namespace World

def step (w : World) : Call → World
  | .filterPacket pkt direction now =>
    let (verdict, fw) := w.firewall.filterPacket pkt direction now
    { firewall := fw
      history :=
        .packet pkt verdict (w.firewall.decider pkt direction now) now :: w.history }
  | .manage op => { w with firewall := w.firewall.manage op }
  | .cleanup now =>
    { firewall := w.firewall.cleanup now, history := .cleanup now :: w.history }

/-- Any enabled firewall that tracks nothing yet, with any rules and profile. -/
def machine : Machine World Call where
  init w := w.firewall.enabled = true ∧ w.firewall.conntrack.table = ∅ ∧ w.history = []
  step w call w' := w' = w.step call

/-- The two packets have no hash in common. -/
def HashApart (p q : PacketInfo) : Prop :=
  ConnTracker.fwd p ≠ ConnTracker.fwd q ∧ ConnTracker.fwd p ≠ ConnTracker.rev q ∧
    ConnTracker.rev p ≠ ConnTracker.fwd q ∧ ConnTracker.rev p ≠ ConnTracker.rev q

instance (p q : PacketInfo) : Decidable (HashApart p q) := inferInstanceAs (Decidable (_ ∧ _))

/-- The condition on a step: no packet seen before has a hash of another flow's,
and a packet that gets an entry of its own is admitted. -/
def Sound (w : World) : Call → Prop
  | .filterPacket pkt direction now =>
    (∀ q ∈ w.history.packets, ¬ q.SameFlow pkt → HashApart q pkt) ∧
      (w.firewall.conntrack.table[ConnTracker.fwd pkt]? = none →
        w.firewall.conntrack.table[ConnTracker.rev pkt]? = none →
        w.firewall.conntrack.table.size < w.firewall.conntrack.maxEntries →
        w.firewall.admits pkt direction now = true)
  | .manage _ => True
  | .cleanup _ => True

end World

/-! ## What the operations do to the table -/

namespace ConnTracker

variable {ct : ConnTracker} {pkt : PacketInfo} {now : UInt64}

theorem touch_state_ne_new (conn : TrackedConn) (now : UInt64) : (touch conn now).state ≠ .new := by
  simp only [touch]
  split
  · intro h
    cases h
  · assumption

/-- The four ways through `track`. A packet that hits an entry is reported as
established or related. -/
theorem track_cases (ct : ConnTracker) (pkt : PacketInfo) (now : UInt64) :
    (∃ key conn, (key = fwd pkt ∨ key = rev pkt) ∧ ct.table[key]? = some conn ∧
      (ct.track pkt now).1 ≠ .new ∧
      (ct.track pkt now).2 = { ct with table := ct.table.insert key (touch conn now) }) ∨
    (ct.table[fwd pkt]? = none ∧ ct.table[rev pkt]? = none ∧ (ct.track pkt now).1 = .new ∧
      ((¬ ct.table.size < ct.maxEntries ∧ (ct.track pkt now).2 = ct) ∨
        (ct.table.size < ct.maxEntries ∧
          (ct.track pkt now).2 = { ct with
            table := ct.table.insert (fwd pkt) ⟨.new, now, 1, pkt.protocol.timeoutSecs⟩ }))) := by
  rw [track]
  cases hfwd : ct.table[fwd pkt]? with
  | some conn => exact .inl ⟨_, conn, .inl rfl, hfwd, touch_state_ne_new conn now, rfl⟩
  | none =>
    cases hrev : ct.table[rev pkt]? with
    | some conn => exact .inl ⟨_, conn, .inr rfl, hrev, ConnState.noConfusion, rfl⟩
    | none =>
      refine .inr ⟨rfl, rfl, ?_⟩
      dsimp only
      split
      · rename_i hfull
        exact ⟨rfl, .inl ⟨Nat.not_lt.mpr hfull, rfl⟩⟩
      · rename_i hroom
        exact ⟨rfl, .inr ⟨Nat.not_le.mp hroom, rfl⟩⟩

end ConnTracker

namespace Firewall

variable {fw : Firewall} {pkt : PacketInfo} {direction : Direction} {now : UInt64}

@[simp] theorem record_conntrack (ruleId : UInt64) (v : Verdict) :
    (fw.record pkt direction ruleId now v).conntrack = fw.conntrack := by cases v <;> rfl

@[simp] theorem record_enabled (ruleId : UInt64) (v : Verdict) :
    (fw.record pkt direction ruleId now v).enabled = fw.enabled := by cases v <;> rfl

theorem judge_spec (fw : Firewall) (pkt : PacketInfo) (direction : Direction) (now : UInt64) :
    (fw.judge pkt direction now).1 = fw.policyVerdict pkt direction ∧
      (fw.judge pkt direction now).2.conntrack = fw.conntrack ∧
      (fw.judge pkt direction now).2.enabled = fw.enabled := by
  rw [judge, policyVerdict]
  cases hrule : fw.rules.find? (·.matchesPacket pkt direction) with
  | some rule => exact ⟨rfl, record_conntrack .., record_enabled ..⟩
  | none => exact ⟨rfl, record_conntrack .., record_enabled ..⟩

/-- The limiter changes nothing else, and does not look at the table. -/
theorem limit_spec (fw : Firewall) (ct : ConnTracker) (pkt : PacketInfo) (direction : Direction)
    (now : UInt64) :
    ({ fw with conntrack := ct }.limit pkt direction now).1 = (fw.limit pkt direction now).1 ∧
      ∃ rl, ({ fw with conntrack := ct }.limit pkt direction now).2 =
        { fw with conntrack := ct, rateLimiter := rl } := by
  unfold limit
  split
  · exact ⟨rfl, _, rfl⟩
  · exact ⟨rfl, fw.rateLimiter, rfl⟩

/-- The table after a packet is the one `track` leaves, and a packet the policy
decides about gets the policy's verdict. -/
theorem filterPacket_spec (hon : fw.enabled = true) (pkt : PacketInfo) (direction : Direction)
    (now : UInt64) :
    (fw.filterPacket pkt direction now).2.conntrack = (fw.conntrack.track pkt now).2 ∧
      (fw.filterPacket pkt direction now).2.enabled = true ∧
      (fw.decider pkt direction now = .policy →
        (fw.filterPacket pkt direction now).1 = fw.policyVerdict pkt direction) := by
  have hswitch : (!fw.enabled) = false := by rw [hon]; rfl
  obtain ⟨hpass, rl, hfw⟩ := limit_spec fw (fw.conntrack.track pkt now).2 pkt direction now
  simp only [filterPacket, decider, hswitch, Bool.false_eq_true, if_false]
  cases hct : (fw.conntrack.track pkt now).1 with
  | established => exact ⟨rfl, hon, fun h => Decider.noConfusion h⟩
  | related => exact ⟨rfl, hon, fun h => Decider.noConfusion h⟩
  | new =>
    simp only [reduceCtorEq, or_self, if_false, ne_eq, not_true_eq_false, hpass, hfw]
    cases hlimit : (fw.limit pkt direction now).1 with
    | false => exact ⟨rfl, hon, fun h => Decider.noConfusion h⟩
    | true =>
      obtain ⟨hverdict, htable, henabled⟩ := judge_spec
        { fw with conntrack := (fw.conntrack.track pkt now).2, rateLimiter := rl } pkt direction now
      exact ⟨htable, henabled.trans hon, fun _ => hverdict⟩

/-- Rule management touches neither the table nor the switch. -/
theorem manage_spec (fw : Firewall) (op : Management) :
    (fw.manage op).conntrack = fw.conntrack ∧ (fw.manage op).enabled = fw.enabled := by
  have happly : ∀ nowMs profile, (fw.applyProfile nowMs profile).conntrack = fw.conntrack ∧
      (fw.applyProfile nowMs profile).enabled = fw.enabled := by
    intro nowMs profile
    cases profile <;> exact ⟨rfl, rfl⟩
  cases op with
  | addRule caps =>
    rw [manage, addRule]
    cases checkNetworkCap caps Rights.write <;> exact ⟨rfl, rfl⟩
  | removeRule caps ruleId =>
    rw [manage, removeRule]
    cases checkNetworkCap caps Rights.write with
    | error e => exact ⟨rfl, rfl⟩
    | ok u =>
      dsimp only [bind, Except.bind]
      split <;> exact ⟨rfl, rfl⟩
  | setRuleEnabled caps ruleId enabled =>
    rw [manage, setRuleEnabled]
    cases checkNetworkCap caps Rights.write with
    | error e => exact ⟨rfl, rfl⟩
    | ok u =>
      dsimp only [bind, Except.bind]
      split <;> exact ⟨rfl, rfl⟩
  | setProfile caps nowMs profile =>
    rw [manage, setProfile]
    cases checkNetworkCap caps Rights.write with
    | error e => exact ⟨rfl, rfl⟩
    | ok u => exact happly nowMs profile
  | applyProfile nowMs profile => exact happly nowMs profile
  | flushRules caps =>
    rw [manage, flushRules]
    cases checkNetworkCap caps Rights.write <;> exact ⟨rfl, rfl⟩
  | clearLog => exact ⟨rfl, rfl⟩
  | resetStats => exact ⟨rfl, rfl⟩
  | resetRuleCounters => exact ⟨rfl, rfl⟩

end Firewall

/-! ## Every entry stands for an open flow -/

open ConnTracker History

/-- The entry under `key` was made by a packet of a flow that is open, it was last
touched by the flow's latest packet, and the flow has no second entry. -/
def EntryFor (table : Std.ExtTreeMap UInt64 TrackedConn) (h : History) (key : UInt64)
    (conn : TrackedConn) : Prop :=
  ∃ q ∈ h.packets, fwd q = key ∧ Open q h ∧ lastSeen q h = some conn.lastSeen ∧
    conn.timeoutSecs = q.protocol.timeoutSecs ∧ (rev q = key ∨ table[rev q]? = none)

/-- The invariant of sound runs. -/
structure Faithful (w : World) : Prop where
  enabled : w.firewall.enabled = true
  entry : ∀ key conn, w.firewall.conntrack.table[key]? = some conn →
    EntryFor w.firewall.conntrack.table w.history key conn
  honest : w.history.Honest

/-- An insertion, with plain equality of the keys. -/
theorem getElem?_insert_table (table : Std.ExtTreeMap UInt64 TrackedConn) (key key' : UInt64)
    (conn : TrackedConn) :
    (table.insert key conn)[key']? = if key = key' then some conn else table[key']? := by
  rw [Std.ExtTreeMap.getElem?_insert]
  simp only [Std.compare_eq_iff_eq]

section Packet

variable {table : Std.ExtTreeMap UInt64 TrackedConn} {h : History} {pkt : PacketInfo}
  {verdict : Verdict} {decider : Decider} {now : UInt64} {key : UInt64} {conn : TrackedConn}

variable {table' : Std.ExtTreeMap UInt64 TrackedConn}

/-- A packet of another flow, and a new entry away from this flow's other key,
leave an entry as it was. -/
theorem EntryFor.packet_of_other {q : PacketInfo} (hq : q ∈ h.packets) (hkey : fwd q = key)
    (hopen : Open q h) (hseen : lastSeen q h = some conn.lastSeen)
    (htimeout : conn.timeoutSecs = q.protocol.timeoutSecs)
    (hrev : rev q = key ∨ table'[rev q]? = none) (hother : ¬ q.SameFlow pkt) :
    EntryFor table' (.packet pkt verdict decider now :: h) key conn := by
  refine ⟨q, List.mem_cons_of_mem _ hq, hkey, .inr hopen, ?_, htimeout, hrev⟩
  rw [lastSeen, if_neg hother]
  exact hseen

/-- A packet that hits an entry is of the flow the entry stands for, so that flow
is open, and the entry is touched. -/
theorem EntryFor.hit
    (hentry : ∀ key conn, table[key]? = some conn → EntryFor table h key conn)
    (hapart : ∀ q ∈ h.packets, ¬ q.SameFlow pkt → World.HashApart q pkt)
    (hkey : key = fwd pkt ∨ key = rev pkt) (hconn : table[key]? = some conn) :
    Open pkt h ∧ ∀ key' conn', (table.insert key (ConnTracker.touch conn now))[key']? = some conn' →
      EntryFor (table.insert key (ConnTracker.touch conn now))
        (.packet pkt verdict decider now :: h) key' conn' := by
  obtain ⟨q, hq, hfwd, hopen, hseen, htimeout, hrev⟩ := hentry key conn hconn
  have hsame : q.SameFlow pkt := by
    by_contra hother
    obtain ⟨hff, hfr, -, -⟩ := hapart q hq hother
    obtain hkey | hkey := hkey
    · exact hff (hfwd.trans hkey)
    · exact hfr (hfwd.trans hkey)
  refine ⟨(open_congr hsame h).mp hopen, fun key' conn' hconn' => ?_⟩
  rw [getElem?_insert_table] at hconn'
  split at hconn'
  · -- the entry that was hit
    rename_i heq
    subst heq
    obtain rfl := Option.some.inj hconn'
    refine ⟨q, List.mem_cons_of_mem _ hq, hfwd, .inr hopen, ?_, htimeout, ?_⟩
    · rw [lastSeen, if_pos hsame]
      rfl
    · refine or_iff_not_imp_left.mpr fun hne => ?_
      rw [getElem?_insert_table, if_neg (Ne.symm hne)]
      exact hrev.resolve_left hne
  · -- another entry: it cannot be of the same flow, which has only one
    rename_i hne
    obtain ⟨q', hq', hfwd', hopen', hseen', htimeout', hrev'⟩ := hentry key' conn' hconn'
    have hother : ¬ q'.SameFlow pkt := by
      intro hsame'
      obtain ⟨hf, -⟩ | ⟨hf, hr⟩ := (hsame'.trans hsame.symm).hashes
      · exact hne (hfwd.symm.trans (hf.symm.trans hfwd'))
      · have hkey' : rev q = key' := hf.symm.trans hfwd'
        obtain heq | hnone := hrev
        · exact hne (heq.symm.trans hkey')
        · rw [hkey', hconn'] at hnone
          cases hnone
    refine .packet_of_other hq' hfwd' hopen' hseen' htimeout' ?_ hother
    refine or_iff_not_imp_left.mpr fun hne' => ?_
    have hkeyrev : key ≠ rev q' := by
      obtain ⟨-, -, hrf, hrr⟩ := hapart q' hq' hother
      obtain hkey | hkey := hkey
      · exact fun hc => hrf (hc.symm.trans hkey)
      · exact fun hc => hrr (hc.symm.trans hkey)
    rw [getElem?_insert_table, if_neg hkeyrev]
    exact hrev'.resolve_left hne'

/-- A packet of a flow without an entry leaves the entries there are. -/
theorem EntryFor.miss (hentry : ∀ key conn, table[key]? = some conn → EntryFor table h key conn)
    (hfwd : table[fwd pkt]? = none) (hrev : table[rev pkt]? = none)
    (htable' : ∀ q ∈ h.packets, ¬ q.SameFlow pkt → table'[rev q]? = table[rev q]?)
    (hconn : table[key]? = some conn) :
    EntryFor table' (.packet pkt verdict decider now :: h) key conn := by
  obtain ⟨q, hq, hfwd', hopen, hseen, htimeout, hrev'⟩ := hentry key conn hconn
  have hother : ¬ q.SameFlow pkt := by
    intro hsame
    obtain ⟨hf, -⟩ | ⟨hf, -⟩ := hsame.hashes
    · rw [← hfwd', hf, hfwd] at hconn
      cases hconn
    · rw [← hfwd', hf, hrev] at hconn
      cases hconn
  exact .packet_of_other hq hfwd' hopen hseen htimeout
    (hrev'.imp_right ((htable' q hq hother).trans ·)) hother

/-- An admitted packet makes an entry for its own flow, which it opens. -/
theorem EntryFor.fresh
    (hentry : ∀ key conn, table[key]? = some conn → EntryFor table h key conn)
    (hapart : ∀ q ∈ h.packets, ¬ q.SameFlow pkt → World.HashApart q pkt)
    (hfwd : table[fwd pkt]? = none) (hrev : table[rev pkt]? = none)
    (hverdict : verdict = .allow) (hdecider : decider = .policy) {packets : UInt64}
    (hconn : (table.insert (fwd pkt) ⟨.new, now, packets, pkt.protocol.timeoutSecs⟩)[key]? =
      some conn) :
    EntryFor (table.insert (fwd pkt) ⟨.new, now, packets, pkt.protocol.timeoutSecs⟩)
      (.packet pkt verdict decider now :: h) key conn := by
  rw [getElem?_insert_table] at hconn
  split at hconn
  · rename_i heq
    subst heq
    obtain rfl := Option.some.inj hconn
    refine ⟨pkt, List.mem_cons_self, rfl, .inl ⟨.refl pkt, hverdict, hdecider⟩, ?_, rfl, ?_⟩
    · rw [lastSeen, if_pos (.refl pkt)]
    · refine or_iff_not_imp_left.mpr fun hne => ?_
      rw [getElem?_insert_table, if_neg (Ne.symm hne)]
      exact hrev
  · refine .miss hentry hfwd hrev (fun q hq hother => ?_) hconn
    obtain ⟨-, -, hrf, -⟩ := hapart q hq hother
    rw [getElem?_insert_table, if_neg (Ne.symm hrf)]

end Packet

/-- Whatever stays in the table at a cleanup is of a flow that has not expired. -/
theorem EntryFor.cleanup {ct : ConnTracker} {h : History} {now key : UInt64} {conn : TrackedConn}
    (hentry : ∀ key conn, ct.table[key]? = some conn → EntryFor ct.table h key conn)
    (hconn : (ct.cleanup now).table[key]? = some conn) :
    EntryFor (ct.cleanup now).table (.cleanup now :: h) key conn := by
  rw [ConnTracker.cleanup, Std.ExtTreeMap.getElem?_filter', Option.filter_eq_some_iff] at hconn
  obtain ⟨hget, hidle⟩ := hconn
  obtain ⟨q, hq, hfwd, hopen, hseen, htimeout, hrev⟩ := hentry key conn hget
  refine ⟨q, hq, hfwd, ⟨hopen, fun t ht => ?_⟩, hseen, htimeout, hrev.imp_right fun hnone => ?_⟩
  · rw [hseen] at ht
    obtain rfl := Option.some.inj ht
    exact htimeout ▸ of_decide_eq_true hidle
  · rw [ConnTracker.cleanup, Std.ExtTreeMap.getElem?_filter', hnone]
    rfl

namespace Faithful

variable {w : World}

theorem filterPacket (hw : Faithful w) {pkt : PacketInfo} {direction : Direction} {now : UInt64}
    (hsound : w.Sound (.filterPacket pkt direction now)) :
    Faithful (w.step (.filterPacket pkt direction now)) := by
  obtain ⟨hapart, hadmits⟩ := hsound
  obtain ⟨htable, henabled, hpolicy⟩ :=
    Firewall.filterPacket_spec hw.enabled pkt direction now
  have hhonest : ∀ {v}, (w.firewall.decider pkt direction now = .conntrack → Open pkt w.history) →
      History.Honest (.packet pkt v (w.firewall.decider pkt direction now) now :: w.history) := by
    intro v hopen
    refine hw.honest.cons fun p v' now' heq => ?_
    injection heq with hp _ hd
    exact hp ▸ hopen hd
  obtain ⟨key, conn, hkey, hconn, -, htrack⟩ | ⟨hfwd, hrev, hnew, hroom⟩ :=
    ConnTracker.track_cases w.firewall.conntrack pkt now
  · obtain ⟨hopen, hentries⟩ := EntryFor.hit hw.entry hapart hkey hconn
    refine ⟨henabled, ?_, hhonest fun _ => hopen⟩
    show ∀ key conn, (w.firewall.filterPacket pkt direction now).2.conntrack.table[key]? = some conn →
      EntryFor (w.firewall.filterPacket pkt direction now).2.conntrack.table _ key conn
    rw [htable, htrack]
    exact hentries
  · have hnotTracked : w.firewall.decider pkt direction now ≠ .conntrack := by
      rw [Firewall.decider, hw.enabled, hnew]
      simp only [Bool.not_true, Bool.false_eq_true, if_false, ne_eq, not_true_eq_false]
      split <;> exact Decider.noConfusion
    refine ⟨henabled, ?_, hhonest fun hc => absurd hc hnotTracked⟩
    show ∀ key conn, (w.firewall.filterPacket pkt direction now).2.conntrack.table[key]? = some conn →
      EntryFor (w.firewall.filterPacket pkt direction now).2.conntrack.table _ key conn
    rw [htable]
    obtain ⟨-, htrack⟩ | ⟨hlt, htrack⟩ := hroom
    · rw [htrack]
      exact fun key conn hconn => .miss hw.entry hfwd hrev (fun _ _ _ => rfl) hconn
    · rw [htrack]
      have hpass := hadmits hfwd hrev hlt
      rw [Firewall.admits, Bool.and_eq_true, beq_iff_eq] at hpass
      have hdecider : w.firewall.decider pkt direction now = .policy := by
        rw [Firewall.decider, hw.enabled, hnew, hpass.1]
        rfl
      exact fun key conn hconn => .fresh hw.entry hapart hfwd hrev
        ((hpolicy hdecider).trans hpass.2) hdecider hconn

theorem step (hw : Faithful w) {call : Call} (hsound : w.Sound call) : Faithful (w.step call) := by
  cases call with
  | filterPacket pkt direction now => exact hw.filterPacket hsound
  | manage op =>
    obtain ⟨htable, henabled⟩ := Firewall.manage_spec w.firewall op
    refine ⟨henabled.trans hw.enabled, ?_, hw.honest⟩
    show ∀ key conn, (w.firewall.manage op).conntrack.table[key]? = some conn →
      EntryFor (w.firewall.manage op).conntrack.table _ key conn
    rw [htable]
    exact hw.entry
  | cleanup now =>
    refine ⟨hw.enabled, fun key conn hconn => .cleanup hw.entry hconn, ?_⟩
    exact hw.honest.cons fun pkt v now' heq => Event.noConfusion heq

end Faithful

/-- In every run of sound steps, a packet is let through by connection tracking
only if its flow was opened by a rule or the default policy and has not expired. -/
theorem honest_of_sound {w : World} (hrun : World.machine.Run World.Sound w) :
    w.history.Honest := by
  have hfaithful : Faithful w := by
    refine hrun.invariant (fun w hinit => ?_) fun w call w' hw hsound hstep => ?_
    · obtain ⟨henabled, htable, hhistory⟩ := hinit
      refine ⟨henabled, fun key conn hconn => ?_, ?_⟩
      · rw [htable, Std.ExtTreeMap.getElem?_empty] at hconn
        cases hconn
      · rw [hhistory]
        intro pkt verdict now past hsuffix
        cases List.suffix_nil.mp hsuffix
    · exact hstep ▸ hw.step hsound
  exact hfaithful.honest

namespace World

/-- A fresh firewall: default deny inbound, default allow outbound. -/
def fresh : World := { firewall := .new, history := [] }

theorem fresh_init : machine.init fresh := ⟨rfl, rfl, rfl⟩

/-- A web request from this machine. -/
def request : PacketInfo where
  srcAddr := #v[10, 0, 0, 2]
  dstAddr := #v[1, 2, 3, 4]
  srcPort := 12345
  dstPort := 443
  protocol := .tcp
  length := 64
  appId := none

/-- The packet that answers it. -/
def reply : PacketInfo :=
  { request with srcAddr := #v[1, 2, 3, 4], dstAddr := #v[10, 0, 0, 2], srcPort := 443, dstPort := 12345 }

end World

/-- A request the outbound policy allows, then its reply, which tracking lets in:
both steps are sound. -/
theorem request_reply_honest :
    ((World.fresh.step (.filterPacket World.request .outbound 1000)).step
      (.filterPacket World.reply .inbound 1001)).history.Honest := by
  refine honest_of_sound (.snoc (.snoc (.start World.fresh_init) ?_ rfl) ?_ rfl)
  · exact ⟨fun q hq => absurd hq List.not_mem_nil, fun _ _ _ => by decide⟩
  · have hpackets : (World.fresh.step (.filterPacket World.request .outbound 1000)).history.packets =
        [World.request] := rfl
    refine ⟨fun q hq hother => ?_, fun _ hrev => ?_⟩
    · rw [hpackets, List.mem_singleton] at hq
      exact absurd (hq ▸ by decide : q.SameFlow World.reply) hother
    · exact absurd hrev (by decide)

/-- An unsolicited inbound packet the default policy denies, sent twice: the second
copy is let through as part of an established connection. -/
theorem denied_packet_tracked :
    ¬ ∀ w, World.machine.Reachable w → w.history.Honest := by
  intro hhonest
  have hrun : World.machine.Reachable ((World.fresh.step (.filterPacket World.reply .inbound 1000)).step
      (.filterPacket World.reply .inbound 1000)) :=
    .snoc (.snoc (.start World.fresh_init) trivial rfl) trivial rfl
  have hhistory : ((World.fresh.step (.filterPacket World.reply .inbound 1000)).step
      (.filterPacket World.reply .inbound 1000)).history =
      [.packet World.reply .allow .conntrack 1000, .packet World.reply .deny .policy 1000] := by
    decide
  have hopen := hhonest _ hrun World.reply .allow 1000 [.packet World.reply .deny .policy 1000]
    (hhistory ▸ List.suffix_rfl)
  rw [History.Open, History.Open] at hopen
  obtain ⟨-, hverdict, -⟩ | hfalse := hopen
  · cases hverdict
  · exact hfalse

end AthenaOS.Net

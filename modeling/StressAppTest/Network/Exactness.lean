import StressAppTest.Network.Reflection

/-!
# The reflection is exact

The bytes that the master has received, those on their way back, those that the slave holds and
those on their way to it are, in this order, the bytes that the master has sent. When the master has
received as many bytes as it has sent, nothing is on its way, and the page that came back is the
page that went out.
-/

namespace StressAppTest.Network

/-! ## Buffers -/

theorem length_write {buf : Page} {n : Nat} {data : List UInt8} (h : n + data.length ≤ buf.length) :
    (write buf n data).length = buf.length := by
  simp only [write, List.length_append, List.length_take, List.length_drop]
  omega

theorem take_write (buf : Page) (n : Nat) (data : List UInt8) (h : n ≤ buf.length) :
    (write buf n data).take (n + data.length) = buf.take n ++ data := by
  have hlength : n + data.length = (buf.take n ++ data).length := by
    simp only [List.length_append, List.length_take]
    omega
  rw [write, hlength, List.take_left]

theorem length_terminate (buf : Page) (n : Nat) (stop closed : Bool) (err : Nat) :
    (terminate buf n stop closed err).length = buf.length := by
  rw [terminate]
  split
  · exact List.length_set
  · rfl

theorem length_update {pageLength : Nat} {mem : Nat → Page} (h : ∀ p, (mem p).length = pageLength)
    {page : Page} (hpage : page.length = pageLength) (q p : Nat) :
    (Function.update mem q page p).length = pageLength := by
  by_cases hp : p = q
  · subst hp
    rw [Function.update_self, hpage]
  · rw [Function.update_of_ne hp]
    exact h p

/-! ## The invariant -/

/-- The bytes that the slave has received and not sent. -/
def Slave.held (localPage : Page) : Slave → List UInt8
  | .receiving n => localPage.take n
  | .sending n => localPage.drop n
  | .done dropped => dropped

/-- Every page that went out has come back. -/
structure Settled (s : Net) : Prop where
  pages : s.sent = s.received
  bytesSent : s.bytesSent = s.sent.flatten
  bytesReceived : s.bytesReceived = s.received.flatten

/-- The last calls of the page queue. -/
def Called (s : Net) (ops : List QueueOp) : Prop := ∃ pre, s.ops = pre ++ ops

variable (pageLength : Nat)

/-- What holds where the master is. -/
def Phase (s : Net) : Master → Prop
  | .loop | .source | .retire _ _ => Settled s
  | .destination src | .restore src => Settled s ∧ Called s [.getValid src]
  | .check src dst => Settled s ∧ Called s [.getValid src, .getEmpty dst]
  | .sending src dst n =>
      n ≤ pageLength ∧ s.sent = s.received ++ [s.mem src] ∧
        s.bytesSent = s.received.flatten ++ (s.mem src).take n ∧
        s.bytesReceived = s.received.flatten ∧ Called s [.getValid src, .getEmpty dst]
  | .receiving src dst n =>
      n ≤ pageLength ∧ s.sent = s.received ++ [s.mem src] ∧ s.bytesSent = s.sent.flatten ∧
        s.bytesReceived = s.received.flatten ++ (s.mem dst).take n ∧
        Called s [.getValid src, .getEmpty dst]
  | .publish src dst =>
      Settled s ∧ s.received.getLast? = some (s.mem dst) ∧ s.mem dst = s.mem src
  | .bail src dst => s.received <+: s.sent ∧ Called s [.getValid src, .getEmpty dst]
  | .bailDst src dst =>
      s.received <+: s.sent ∧ Called s [.getValid src, .getEmpty dst, .putValid src]
  | .done (.transfer src dst) =>
      s.received <+: s.sent ∧ Called s [.getValid src, .getEmpty dst, .putValid src, .putEmpty dst]
  | .done (.noDestination src) => Settled s ∧ Called s [.getValid src, .putValid src]
  | .done _ => Settled s

structure Inv (s : Net) : Prop where
  mem : ∀ p, (s.mem p).length = pageLength
  localPage : s.localPage.length = pageLength
  flow : s.bytesReceived ++ s.down ++ s.slave.held s.localPage ++ s.up = s.bytesSent
  slave : match s.slave with
    | .receiving n | .sending n => n ≤ pageLength
    | .done _ => True
  hand : s.master.hand.Nodup ∧ ∀ p ∈ s.master.hand, s.place p = .out
  phase : Phase pageLength s s.master

variable {pageLength}

theorem inv_start {place : Nat → Place} {mem : Nat → Page} {localPage : Page}
    (hmem : ∀ p, (mem p).length = pageLength) (hlocal : localPage.length = pageLength) :
    Inv pageLength (Net.start place mem localPage) where
  mem := hmem
  localPage := hlocal
  flow := rfl
  slave := Nat.zero_le _
  hand := ⟨List.nodup_nil, nofun⟩
  phase := ⟨rfl, rfl, rfl⟩

/-- In every phase the pages that came back are the first of those that went out. -/
theorem Phase.received_first {s : Net} {m : Master} (h : Phase pageLength s m) :
    s.received <+: s.sent := by
  have hsettled (hs : Settled s) : s.received <+: s.sent := by
    exact hs.pages ▸ List.prefix_rfl
  have happend {page : Page} (hs : s.sent = s.received ++ [page]) : s.received <+: s.sent :=
    ⟨[page], hs.symm⟩
  cases m with
  | loop | source | retire src dstReturned => exact hsettled h
  | destination src | restore src | check src dst | publish src dst => exact hsettled h.1
  | sending src dst n | receiving src dst n => exact happend h.2.1
  | bail src dst | bailDst src dst => exact h.1
  | done exit =>
      cases exit with
      | stopped | noSource | noPush => exact hsettled h
      | noDestination src => exact hsettled h.1
      | transfer src dst => exact h.1

theorem Settled.frame {s s' : Net} (h : Settled s) (hsent : s'.sent = s.sent)
    (hreceived : s'.received = s.received) (hbytesSent : s'.bytesSent = s.bytesSent)
    (hbytesReceived : s'.bytesReceived = s.bytesReceived) : Settled s' := by
  refine ⟨?_, ?_, ?_⟩
  · rw [hsent, hreceived, h.pages]
  · rw [hbytesSent, hsent, h.bytesSent]
  · rw [hbytesReceived, hreceived, h.bytesReceived]

/-- A phase depends on the pages in hand and on what the master has done. -/
theorem Phase.frame {s s' : Net} {m : Master} (h : Phase pageLength s m)
    (hmem : ∀ p ∈ m.hand, s'.mem p = s.mem p) (hops : s'.ops = s.ops) (hsent : s'.sent = s.sent)
    (hreceived : s'.received = s.received) (hbytesSent : s'.bytesSent = s.bytesSent)
    (hbytesReceived : s'.bytesReceived = s.bytesReceived) : Phase pageLength s' m := by
  have hsettled (hs : Settled s) : Settled s' :=
    hs.frame hsent hreceived hbytesSent hbytesReceived
  have hcalled {ops : List QueueOp} (hs : Called s ops) : Called s' ops := by
    obtain ⟨pre, hpre⟩ := hs
    exact ⟨pre, hops.trans hpre⟩
  cases m with
  | loop | source | retire src dstReturned => exact hsettled h
  | destination src | restore src | check src dst => exact ⟨hsettled h.1, hcalled h.2⟩
  | publish src dst =>
      have hsrc : s'.mem src = s.mem src := hmem src (by simp [Master.hand])
      have hdst : s'.mem dst = s.mem dst := hmem dst (by simp [Master.hand])
      refine ⟨hsettled h.1, ?_⟩
      rw [hreceived, hsrc, hdst]
      exact h.2
  | sending src dst n =>
      have hsrc : s'.mem src = s.mem src := hmem src (by simp [Master.hand])
      obtain ⟨hn, hpages, hout, hin, hops⟩ := h
      refine ⟨hn, ?_, ?_, ?_, hcalled hops⟩
      · rw [hsent, hreceived, hsrc, hpages]
      · rw [hbytesSent, hreceived, hsrc, hout]
      · rw [hbytesReceived, hreceived, hin]
  | receiving src dst n =>
      have hsrc : s'.mem src = s.mem src := hmem src (by simp [Master.hand])
      have hdst : s'.mem dst = s.mem dst := hmem dst (by simp [Master.hand])
      obtain ⟨hn, hpages, hout, hin, hops⟩ := h
      refine ⟨hn, ?_, ?_, ?_, hcalled hops⟩
      · rw [hsent, hreceived, hsrc, hpages]
      · rw [hbytesSent, hsent, hout]
      · rw [hbytesReceived, hreceived, hdst, hin]
  | bail src dst | bailDst src dst =>
      refine ⟨?_, hcalled h.2⟩
      rw [hreceived, hsent]
      exact h.1
  | done exit =>
      cases exit with
      | stopped | noSource | noPush => exact hsettled h
      | noDestination src => exact ⟨hsettled h.1, hcalled h.2⟩
      | transfer src dst =>
          refine ⟨?_, hcalled h.2⟩
          rw [hreceived, hsent]
          exact h.1

/-- The page that has come back whole is the one that went out, and nothing is on its way. -/
theorem Inv.received {s : Net} (h : Inv pageLength s) {src dst : Nat}
    (hm : s.master = .receiving src dst pageLength) :
    s.mem dst = s.mem src ∧ s.down = [] ∧ s.slave.held s.localPage = [] ∧ s.up = [] := by
  have hphase := h.phase
  rw [hm] at hphase
  obtain ⟨-, hsent, hbytes, hreceived, -⟩ := hphase
  have hflow := h.flow
  have hwhole : (s.mem dst).take pageLength = s.mem dst := List.take_of_length_le (Nat.le_of_eq (h.mem dst))
  rw [hreceived, hbytes, hsent, hwhole, List.flatten_append, List.flatten_singleton] at hflow
  simp only [List.append_assoc] at hflow
  have hpage := List.append_cancel_left hflow
  have hlength := congrArg List.length hpage
  simp only [List.length_append, h.mem] at hlength
  have hdown : s.down = [] := List.eq_nil_of_length_eq_zero (by omega)
  have hheld : s.slave.held s.localPage = [] := List.eq_nil_of_length_eq_zero (by omega)
  have hup : s.up = [] := List.eq_nil_of_length_eq_zero (by omega)
  rw [hdown, hheld, hup] at hpage
  simp only [List.append_nil] at hpage
  exact ⟨hpage, hdown, hheld, hup⟩

/-! ## The steps -/

/-- The rest of the program changes nothing that the invariant is about. -/
theorem Inv.others {s s' : Net} (h : Inv pageLength s) (hstep : Others pageLength s s') :
    Inv pageLength s' := by
  obtain ⟨place, mem, rfl, hhand, hmem⟩ := hstep
  refine ⟨hmem, h.localPage, h.flow, h.slave, ⟨h.hand.1, ?_⟩, ?_⟩
  · intro p hp
    have hout := h.hand.2 p hp
    rw [← (hhand p hp).1] at hout
    exact hout
  · exact h.phase.frame (fun p hp => (hhand p hp).2) rfl rfl rfl rfl rfl

/-- The slave moves bytes from one direction of the connection to the other. -/
theorem Inv.slaveStep {s s' : Net} (h : Inv pageLength s) {a : Answer}
    (hstep : slaveStep pageLength s a = some s') : Inv pageLength s' := by
  have hflow := h.flow
  have hslave := h.slave
  have hlocal := h.localPage
  unfold Network.slaveStep at hstep
  split at hstep
  next a n hs =>
    rw [hs] at hflow hslave
    simp only [Slave.held] at hflow hslave
    split at hstep
    · next hn =>
      rw [← Option.some.inj hstep]
      refine ⟨h.mem, hlocal, ?_, Nat.zero_le _, h.hand, h.phase.frame (fun _ _ => rfl) rfl rfl rfl rfl rfl⟩
      rw [List.take_of_length_le (by omega)] at hflow
      exact hflow
    · split at hstep
      · next k =>
        split at hstep
        · next hk =>
          rw [← Option.some.inj hstep]
          have hlength : (s.up.take k).length = k := List.length_take_of_le hk.2.2
          refine ⟨h.mem, ?_, ?_, hk.2.1, h.hand, h.phase.frame (fun _ _ => rfl) rfl rfl rfl rfl rfl⟩
          · rw [← hlocal]
            exact length_write (by rw [hlength, hlocal]; exact hk.2.1)
          · have htake := take_write s.localPage n (s.up.take k) (by omega)
            rw [hlength] at htake
            simp only [Slave.held, htake]
            rw [← hflow]
            simp only [List.append_assoc, List.take_append_drop]
        · exact absurd hstep nofun
      · rw [← Option.some.inj hstep]
        exact ⟨h.mem, hlocal, hflow, trivial, h.hand, h.phase.frame (fun _ _ => rfl) rfl rfl rfl rfl rfl⟩
      · exact absurd hstep nofun
  next a n hs =>
    rw [hs] at hflow hslave
    simp only [Slave.held] at hflow hslave
    split at hstep
    · next hn =>
      rw [← Option.some.inj hstep]
      refine ⟨h.mem, hlocal, ?_, Nat.zero_le _, h.hand, h.phase.frame (fun _ _ => rfl) rfl rfl rfl rfl rfl⟩
      rw [List.drop_of_length_le (by omega)] at hflow
      exact hflow
    · split at hstep
      · next k =>
        split at hstep
        · next hk =>
          rw [← Option.some.inj hstep]
          refine ⟨h.mem, hlocal, ?_, hk.2, h.hand, h.phase.frame (fun _ _ => rfl) rfl rfl rfl rfl rfl⟩
          have hsplit : s.localPage.drop n = (s.localPage.drop n).take k ++ s.localPage.drop (n + k) := by
            rw [← List.drop_drop, List.take_append_drop]
          rw [hsplit] at hflow
          simp only [Slave.held]
          rw [← hflow]
          simp only [List.append_assoc]
        · exact absurd hstep nofun
      · rw [← Option.some.inj hstep]
        exact ⟨h.mem, hlocal, hflow, trivial, h.hand, h.phase.frame (fun _ _ => rfl) rfl rfl rfl rfl rfl⟩
      · exact absurd hstep nofun
  next => exact absurd hstep nofun

/-- A page in hand goes back to the queue. -/
theorem put_of_out {s : Net} {page : Nat} {kind : Place} {op : QueueOp} (h : s.place page = .out) :
    put s page kind op =
      ({ s with place := Function.update s.place page kind, ops := s.ops ++ [op] }, true) := if_pos h

theorem Called.append {s s' : Net} {ops : List QueueOp} {op : QueueOp} (h : Called s ops)
    (hops : s'.ops = s.ops ++ [op]) : Called s' (ops ++ [op]) := by
  obtain ⟨pre, hpre⟩ := h
  exact ⟨pre, by rw [hops, hpre, List.append_assoc]⟩

theorem ne_of_hand {src dst : Nat} (h : [src, dst].Nodup) : src ≠ dst := by simpa using h

/-- A `send` of the master puts the next bytes of the source on their way. -/
theorem Inv.masterSend {s s' : Net} (h : Inv pageLength s) {src dst n : Nat} {a : Answer}
    (hm : s.master = .sending src dst n) (hstep : masterSend pageLength s src dst n a = some s') :
    Inv pageLength s' := by
  have hphase := h.phase
  have hhand := h.hand
  rw [hm] at hphase hhand
  obtain ⟨hn, hpages, hout, hin, hops⟩ := hphase
  unfold Network.masterSend at hstep
  split at hstep
  next k =>
    split at hstep
    · next hk =>
      rw [← Option.some.inj hstep]
      refine ⟨h.mem, h.localPage, ?_, h.slave, hhand, hk.2, hpages, ?_, hin, hops⟩
      · have hflow := h.flow
        simp only
        rw [← hflow]
        simp only [List.append_assoc]
      · simp only
        rw [hout, List.append_assoc, ← List.take_add]
    · exact absurd hstep nofun
  next =>
    rw [← Option.some.inj hstep]
    exact ⟨h.mem, h.localPage, h.flow, h.slave, hhand, ⟨_, hpages.symm⟩, hops⟩
  next => exact absurd hstep nofun

/-- A `recv` of the master takes the next bytes into the destination. -/
theorem Inv.masterRecv {s s' : Net} (h : Inv pageLength s) {src dst n : Nat} {a : Answer}
    (hm : s.master = .receiving src dst n) (hstep : masterRecv pageLength s src dst n a = some s') :
    Inv pageLength s' := by
  have hphase := h.phase
  have hhand := h.hand
  rw [hm] at hphase hhand
  obtain ⟨hn, hpages, hout, hin, hops⟩ := hphase
  have hne := ne_of_hand hhand.1
  unfold Network.masterRecv at hstep
  split at hstep
  next k =>
    split at hstep
    · next hk =>
      rw [← Option.some.inj hstep]
      have hlength : (s.down.take k).length = k := List.length_take_of_le hk.2.2
      have hmem := h.mem dst
      refine ⟨?_, h.localPage, ?_, h.slave, hhand, hk.2.1, ?_, hout, ?_, hops⟩
      · exact length_update h.mem (by rw [length_write (by omega), hmem]) dst
      · have hflow := h.flow
        simp only
        rw [← hflow]
        simp only [List.append_assoc]
        rw [← List.append_assoc (s.down.take k), List.take_append_drop]
      · simp only [Function.update_of_ne hne]
        exact hpages
      · have htake := take_write (s.mem dst) n (s.down.take k) (by omega)
        rw [hlength] at htake
        simp only [Function.update_self]
        rw [htake, hin, List.append_assoc]
    · exact absurd hstep nofun
  next stop closed err =>
    rw [← Option.some.inj hstep]
    refine ⟨?_, h.localPage, h.flow, h.slave, hhand, ⟨_, hpages.symm⟩, hops⟩
    exact length_update h.mem (by rw [length_terminate, h.mem]) dst
  next => exact absurd hstep nofun

/-- A step that leaves the master without a page in hand. -/
theorem Inv.emptyHand {s : Net} (h : Inv pageLength s) {m : Master} {place : Nat → Place}
    {ops : List QueueOp} (hhand : m.hand = [])
    (hphase : Phase pageLength { s with master := m, place := place, ops := ops } m) :
    Inv pageLength { s with master := m, place := place, ops := ops } := by
  refine ⟨h.mem, h.localPage, h.flow, h.slave, ?_, hphase⟩
  simp only [hhand]
  exact ⟨List.nodup_nil, fun p hp => absurd hp List.not_mem_nil⟩

/-- The second page for the master. -/
theorem Inv.masterDestination {s : Net} (h : Inv pageLength s) {src dst : Nat}
    (hm : s.master = .destination src) (hempty : s.place dst = .empty) :
    Inv pageLength { s with
      master := .check src dst
      place := Function.update s.place dst .out
      ops := s.ops ++ [.getEmpty dst] } := by
  have hphase := h.phase
  have hhand := h.hand
  rw [hm] at hphase hhand
  have hout := hhand.2 src (List.mem_singleton_self _)
  have hne : src ≠ dst := by
    rintro rfl
    rw [hempty] at hout
    exact absurd hout nofun
  refine ⟨h.mem, h.localPage, h.flow, h.slave, ⟨by simpa [Master.hand] using hne, ?_⟩,
    hphase.1.frame rfl rfl rfl rfl, hphase.2.append rfl⟩
  intro p hp
  rcases List.mem_cons.mp hp with rfl | hp
  · exact (Function.update_of_ne hne _ _).trans hout
  · rw [List.mem_singleton.mp hp]
    exact Function.update_self ..

/-- The check of the source may leave another page in it, which is the one to be sent. -/
theorem Inv.masterCheck {s : Net} (h : Inv pageLength s) {src dst : Nat} {page : Page}
    (hm : s.master = .check src dst) (hpage : page.length = pageLength) :
    Inv pageLength { s with
      master := .sending src dst 0
      mem := Function.update s.mem src page
      sent := s.sent ++ [page] } := by
  have hphase := h.phase
  have hhand := h.hand
  rw [hm] at hphase hhand
  have hself : Function.update s.mem src page src = page := Function.update_self ..
  refine ⟨length_update h.mem hpage src, h.localPage, h.flow, h.slave, hhand, Nat.zero_le _,
    ?_, ?_, hphase.1.bytesReceived, hphase.2⟩
  · simp only [hself]
    rw [hphase.1.pages]
  · simp only [List.take_zero, List.append_nil]
    rw [hphase.1.bytesSent, hphase.1.pages]

/-- The whole source is on its way. -/
theorem Inv.masterSent {s : Net} (h : Inv pageLength s) {src dst : Nat}
    (hm : s.master = .sending src dst pageLength) :
    Inv pageLength { s with master := .receiving src dst 0 } := by
  have hphase := h.phase
  have hhand := h.hand
  rw [hm] at hphase hhand
  obtain ⟨-, hpages, hout, hin, hops⟩ := hphase
  refine ⟨h.mem, h.localPage, h.flow, h.slave, hhand, Nat.zero_le _, hpages, ?_, ?_, hops⟩
  · have hwhole : (s.mem src).take pageLength = s.mem src :=
      List.take_of_length_le (Nat.le_of_eq (h.mem src))
    simp only
    rw [hout, hpages, hwhole, List.flatten_append, List.flatten_singleton]
  · simp only [List.take_zero, List.append_nil]
    exact hin

/-- The whole page is back. -/
theorem Inv.masterReceived {s : Net} (h : Inv pageLength s) {src dst : Nat}
    (hm : s.master = .receiving src dst pageLength) :
    Inv pageLength { s with
      master := .publish src dst
      received := s.received ++ [s.mem dst] } := by
  obtain ⟨hpage, -, -, -⟩ := h.received hm
  have hphase := h.phase
  have hhand := h.hand
  rw [hm] at hphase hhand
  obtain ⟨-, hpages, hout, hin, hops⟩ := hphase
  have hwhole : (s.mem dst).take pageLength = s.mem dst :=
    List.take_of_length_le (Nat.le_of_eq (h.mem dst))
  refine ⟨h.mem, h.localPage, h.flow, h.slave, hhand, ⟨?_, hout, ?_⟩, ?_, hpage⟩
  · simp only
    rw [hpages, hpage]
  · simp only [List.flatten_append, List.flatten_singleton]
    rw [hin, hwhole]
  · simp only [List.getLast?_append, List.getLast?_singleton, Option.some_or]

theorem out_of_put {s : Net} {page other : Nat} {kind : Place} (hne : other ≠ page)
    (hout : s.place other = .out) :
    ∀ p ∈ [other], Function.update s.place page kind p = .out := by
  intro p hp
  rw [List.mem_singleton.mp hp]
  exact (Function.update_of_ne hne _ _).trans hout

theorem Inv.masterStep {s s' : Net} (h : Inv pageLength s) {a : Answer}
    (hstep : masterStep pageLength s a = some s') : Inv pageLength s' := by
  have hphase := h.phase
  have hhand := h.hand
  unfold Network.masterStep at hstep
  split at hstep
  next ready hm =>
    rw [hm] at hphase
    rw [← Option.some.inj hstep]
    cases ready with
    | false =>
        exact h.emptyHand rfl (Settled.frame hphase rfl rfl rfl rfl)
    | true =>
        exact h.emptyHand rfl (Settled.frame hphase rfl rfl rfl rfl)
  next hm =>
    rw [hm] at hphase
    rw [← Option.some.inj hstep]
    exact h.emptyHand rfl (Settled.frame hphase rfl rfl rfl rfl)
  next src hm =>
    rw [hm] at hphase
    split at hstep
    · rw [← Option.some.inj hstep]
      refine ⟨h.mem, h.localPage, h.flow, h.slave, ⟨by simp [Master.hand], ?_⟩,
        Settled.frame hphase rfl rfl rfl rfl, s.ops, rfl⟩
      intro p hp
      rw [List.mem_singleton.mp hp]
      exact Function.update_self ..
    · exact absurd hstep nofun
  next src hm =>
    rw [hm] at hphase hhand
    rw [← Option.some.inj hstep]
    exact ⟨h.mem, h.localPage, h.flow, h.slave, hhand, hphase.1.frame rfl rfl rfl rfl, hphase.2⟩
  next src dst hm =>
    split at hstep
    · next hempty =>
      rw [← Option.some.inj hstep]
      exact h.masterDestination hm hempty
    · exact absurd hstep nofun
  next src ready hm =>
    rw [hm] at hphase hhand
    rw [← Option.some.inj hstep, put_of_out (hhand.2 src (List.mem_singleton_self _))]
    exact h.emptyHand rfl ⟨hphase.1.frame rfl rfl rfl rfl, hphase.2.append rfl⟩
  next src dst page hm =>
    split at hstep
    · next hpage =>
      rw [← Option.some.inj hstep]
      exact h.masterCheck hm hpage
    · exact absurd hstep nofun
  next src dst n hm =>
    split at hstep
    · next hn =>
      subst hn
      rw [← Option.some.inj hstep]
      exact h.masterSent hm
    · exact h.masterSend hm hstep
  next src dst n hm =>
    split at hstep
    · next hn =>
      subst hn
      rw [← Option.some.inj hstep]
      exact h.masterReceived hm
    · exact h.masterRecv hm hstep
  next src dst ready hm =>
    rw [hm] at hphase hhand
    have hdst := hhand.2 dst (by simp [Master.hand])
    have hsrc := hhand.2 src (by simp [Master.hand])
    rw [← Option.some.inj hstep, put_of_out hdst]
    exact ⟨h.mem, h.localPage, h.flow, h.slave,
      ⟨by simp [Master.hand], out_of_put (ne_of_hand hhand.1) hsrc⟩, hphase.1.frame rfl rfl rfl rfl⟩
  next src dstReturned ready hm =>
    rw [hm] at hphase hhand
    rw [← Option.some.inj hstep, put_of_out (hhand.2 src (List.mem_singleton_self _))]
    cases dstReturned with
    | false =>
        exact h.emptyHand rfl (Settled.frame hphase rfl rfl rfl rfl)
    | true =>
        exact h.emptyHand rfl (Settled.frame hphase rfl rfl rfl rfl)
  next src dst ready hm =>
    rw [hm] at hphase hhand
    have hdst := hhand.2 dst (by simp [Master.hand])
    have hsrc := hhand.2 src (by simp [Master.hand])
    rw [← Option.some.inj hstep, put_of_out hsrc]
    exact ⟨h.mem, h.localPage, h.flow, h.slave,
      ⟨by simp [Master.hand], out_of_put (ne_of_hand hhand.1).symm hdst⟩, hphase.1, hphase.2.append rfl⟩
  next src dst ready hm =>
    rw [hm] at hphase hhand
    rw [← Option.some.inj hstep, put_of_out (hhand.2 dst (List.mem_singleton_self _))]
    exact h.emptyHand rfl ⟨hphase.1, hphase.2.append rfl⟩
  next => exact absurd hstep nofun

theorem inv_of_reachable {s : Net} (h : Reachable pageLength s) : Inv pageLength s := by
  obtain ⟨place, mem, localPage, hmem, hlocal, hrun⟩ := h
  induction hrun with
  | refl => exact inv_start hmem hlocal
  | tail _ hstep ih =>
      rcases hstep with ⟨a, hmaster⟩ | ⟨a, hslave⟩ | hothers
      · exact ih.masterStep hmaster
      · exact ih.slaveStep hslave
      · exact ih.others hothers

/-- After a failed transfer the two puts of the master succeed, and give the pages back as they came. -/
theorem Inv.bail {s : Net} (h : Inv pageLength s) {src dst : Nat} (hm : s.master = .bail src dst) :
    ∃ s₁ s₂, Network.masterStep pageLength s (.go true) = some s₁ ∧
      Network.masterStep pageLength s₁ (.go true) = some s₂ ∧
      s₂.place = Function.update (Function.update s.place src .valid) dst .empty ∧ s₂.mem = s.mem ∧
      s₂.master = .done (.transfer src dst) := by
  have hhand := h.hand
  rw [hm] at hhand
  have hsrc := hhand.2 src (by simp [Master.hand])
  have hdst := hhand.2 dst (by simp [Master.hand])
  have hne : dst ≠ src := by
    have hnodup := hhand.1
    simp only [Master.hand, List.nodup_cons, List.mem_singleton] at hnodup
    exact Ne.symm hnodup.1
  have hdst' : Function.update s.place src .valid dst = .out := (Function.update_of_ne hne _ _).trans hdst
  refine ⟨{ s with
      place := Function.update s.place src .valid
      ops := s.ops ++ [.putValid src]
      master := .bailDst src dst }, { s with
      place := Function.update (Function.update s.place src .valid) dst .empty
      ops := s.ops ++ [.putValid src] ++ [.putEmpty dst]
      master := .done (.transfer src dst) }, ?_, ?_, rfl, rfl, rfl⟩
  · simp only [Network.masterStep, hm, put_of_out hsrc]
  · simp only [Network.masterStep]
    rw [put_of_out hdst']

/-- In every state of every run: the pages that came back are the first of those that went out, and
the bytes that came back, those on their way and those that the slave holds are the bytes that went
out. When `ReceivePage` has returned true, its page is the source page and the last page sent, and
nothing is on its way. A failed transfer ends with the source put back as valid and the destination
as empty. -/
theorem network_reflection_exact {pageLength : Nat} {s : Net} (h : Reachable pageLength s) :
    s.received <+: s.sent ∧
    s.bytesReceived ++ s.down ++ s.slave.held s.localPage ++ s.up = s.bytesSent ∧
    (∀ src dst, s.master = .publish src dst →
      s.sent.length = s.received.length ∧ s.received.getLast? = some (s.mem dst) ∧
        s.mem dst = s.mem src ∧ s.down = [] ∧ s.slave.held s.localPage = [] ∧ s.up = []) ∧
    (∀ src dst, s.master = .bail src dst → ∃ s₁ s₂,
      masterStep pageLength s (.go true) = some s₁ ∧ masterStep pageLength s₁ (.go true) = some s₂ ∧
        s₂.place = Function.update (Function.update s.place src .valid) dst .empty ∧
        s₂.mem = s.mem ∧ s₂.master = .done (.transfer src dst)) ∧
    ∀ src dst, s.master = .done (.transfer src dst) →
      ∃ pre, s.ops = pre ++ [.getValid src, .getEmpty dst, .putValid src, .putEmpty dst] := by
  have hinv := inv_of_reachable h
  refine ⟨hinv.phase.received_first, hinv.flow, ?_, fun src dst hm => hinv.bail hm, ?_⟩
  · intro src dst hm
    have hphase := hinv.phase
    rw [hm] at hphase
    obtain ⟨hsettled, hlast, hpage⟩ := hphase
    refine ⟨congrArg List.length hsettled.pages, hlast, hpage, ?_⟩
    have hflow := hinv.flow
    rw [hsettled.bytesReceived, hsettled.bytesSent, hsettled.pages, List.append_assoc, List.append_assoc]
      at hflow
    have hrest := List.append_cancel_left (hflow.trans (List.append_nil _).symm)
    simpa only [List.append_eq_nil_iff] using hrest
  · intro src dst hm
    have hphase := hinv.phase
    rw [hm] at hphase
    exact hphase.2

/-- Two bytes go out one by one, and come back together. -/
theorem network_reflection_exact_two : ∃ s, Reachable 2 s ∧ s.master = .publish 0 1 ∧
    s.received <+: s.sent ∧ s.received = [[7, 8]] := by
  have hstart : Reachable 2 (Net.start (fun p => if p = 0 then .valid else .empty)
      (fun _ => [0, 0]) [0, 0]) := ⟨_, _, _, fun _ => rfl, rfl, .refl⟩
  have hpages := ((hstart.master (.go true) rfl).master (.page (some 0)) rfl).master (.page (some 1)) rfl
  have hfirst := ((hpages.master (.contents [7, 8]) rfl).master (.transferred 1) rfl).slave
    (.transferred 1) rfl
  have hsecond := ((hfirst.master (.transferred 1) rfl).master (.go true) rfl).slave (.transferred 1) rfl
  have hback := (hsecond.slave (.go true) rfl).slave (.transferred 2) rfl
  have hwhole := (hback.master (.transferred 2) rfl).master (.go true) rfl
  exact ⟨_, hwhole, rfl, (network_reflection_exact hwhole).1, rfl⟩

end StressAppTest.Network

import ReliableUdp.Endpoint.Smooth
import ReliableUdp.Session.ServerStep

namespace ReliableUdp

variable {Addr : Type} {L : Link} {S : Session L.size} {c : Client Addr} {x : Transfer}
  {file : InputFile} {config : AppConfig} {e : Env Addr}

def Link.synAck (L : Link) : Message := ⟨L.serverSeq, L.num 1, L.connId, flagSyn ||| flagAck, []⟩

def Link.data (L : Link) (j : Nat) (chunk : Chunk) : Message :=
  ⟨L.num (1 + j), L.serverSeq + 1, L.connId, flagData, chunk.val⟩

def Link.dataAck (L : Link) (k : Nat) : Message :=
  ⟨L.serverSeq, L.num (1 + k), L.connId, flagAck, []⟩

def Link.fin (L : Link) : Message := ⟨L.num (1 + L.size), L.serverSeq + 1, L.connId, flagFin, []⟩

def Link.finAck (L : Link) : Message :=
  ⟨L.serverSeq, L.num (2 + L.size), L.connId, flagFin ||| flagAck, []⟩

def Link.lastAck (L : Link) : Message :=
  ⟨L.num (2 + L.size), L.serverSeq + 1, L.connId, flagAck, []⟩

theorem Link.num_fin (L : Link) : L.num (1 + L.size) + 1 = L.num (2 + L.size) := by
  rw [L.num_succ]
  congr 1
  omega

/-- The transfer never comes close to the top of the number range. -/
def Link.Roomy (L : Link) : Prop := L.isn.toNat + 1 + L.size + windowSize < 2 ^ 32

theorem ReadToEnd.no_error {input rest file : InputFile} {chunks : List Chunk}
    (h : ∃ file, ReadToEnd input file) (hin : input = chunks.map .bytes ++ rest)
    (hr : readChunk rest = (.error, file)) : False := by
  obtain ⟨_, rest', hsplit, heof⟩ := h
  have hcontent : content input = chunks := by
    rw [hin, content_append, content_of_readChunk (Or.inr hr), List.append_nil]
  rw [hcontent] at hsplit
  have hrest : rest = rest' := List.append_cancel_left (hin.symm.trans hsplit)
  rw [hrest, heof] at hr
  exact absurd (Prod.mk.inj hr).1 (by simp)

theorem Sending.base_lt (h : Sending L S x file) (hroom : L.Roomy) :
    x.gbn.base.toNat + windowSize < 2 ^ 32 := by
  have hacked := S.acked_le.trans (S.delivered_le.trans S.sent_le)
  rw [h.acked]
  rw [Link.Roomy] at hroom
  omega

/-- A round of the transfer loop has filled the window to `y` before it waits: the base stays, the
timer at most starts, and the window is not empty before the end of the file. -/
structure Round (L : Link) (x y : Transfer) (file : InputFile) (e : Env Addr) : Prop where
  sending : ∃ T : Session L.size, Sending L T y file
  base : y.gbn.base = x.gbn.base
  next : x.gbn.nextseqnum.toNat ≤ y.gbn.nextseqnum.toNat
  timer : y.gbn.windowTimerMs = x.gbn.windowTimerMs ∨
    x.gbn.base = x.gbn.nextseqnum ∧ y.gbn.windowTimerMs = e.fillMs
  ready : y.eofReached = true ∨ y.gbn.base ≠ y.gbn.nextseqnum

theorem Round.stay (h : Sending L S x file) (heof : x.eofReached = true) :
    Round L x x file e :=
  ⟨⟨S, h⟩, rfl, Nat.le_refl _, Or.inl rfl, Or.inl heof⟩

theorem Round.fill (h : Sending L S x file) (hread : ∃ file, ReadToEnd L.input file)
    (hroom : L.Roomy) (ho : S.opened = true) (heof : x.eofReached = false) (e : Env Addr)
    (addr : Addr) :
    ¬ (gbnFillAndSendWindow e addr (L.connection 1) x.gbn file).result < 0 ∧
    Round L x { x with
        gbn := (gbnFillAndSendWindow e addr (L.connection 1) x.gbn file).state
        eofReached := decide
          ((gbnFillAndSendWindow e addr (L.connection 1) x.gbn file).result > 0) }
      (gbnFillAndSendWindow e addr (L.connection 1) x.gbn file).file e := by
  have hmax := h.base_lt hroom
  obtain ⟨chunks, rest, hfile, hrep, hbase, _, hend⟩ :=
    gbnFillAndSendWindow_outcome e addr file h.represents hmax
  have htimer := gbnFillAndSendWindow_timer e addr file h.represents hmax
  obtain ⟨m, hm, _, _, hsending⟩ := h.fill ho heof e addr
  have hnext := hrep.next
  have hnext' := h.represents.next
  rw [List.length_append] at hnext
  have hok : ¬ (gbnFillAndSendWindow e addr (L.connection 1) x.gbn file).result < 0 := by
    cases hend with
    | full hr _ _ => rw [hr]; decide
    | eof hr _ _ => rw [hr]; decide
    | error hr hf =>
      have hinput := h.reading heof
      rw [hfile, ← List.append_assoc, ← List.map_append] at hinput
      exact (ReadToEnd.no_error hread hinput hf).elim
  refine ⟨hok, ⟨⟨_, hsending.resolve_left hok⟩, hbase, ?_, htimer, ?_⟩⟩
  · dsimp only
    omega
  · cases hend with
    | full hr _ hfull =>
      right
      intro heq
      rw [heq] at hfull
      simp only [windowSize] at hfull
      omega
    | eof hr _ _ => exact Or.inl (by simp only [hr]; decide)
    | error hr _ => exact absurd (by rw [hr]; decide) hok

/-- What a round does before it waits. -/
theorem Sending.round (h : Sending L S x c.file) (ht : InTransfer L S c)
    (hread : ∃ file, ReadToEnd L.input file) (hroom : L.Roomy)
    (he : e.Smooth config c.lastProgressMs) (hpc : c.pc = .transfer) (hx : c.xfer = some x) :
    ∃ y file sends, Round L x y file e ∧
      c.step config e = (({ c with file := file }.transferWait y e).1,
        sends ++ ({ c with file := file }.transferWait y e).2) := by
  by_cases hloop : x.eofReached = false ∨ x.gbn.base < x.gbn.nextseqnum
  · rw [Client.step_round he hpc hx hloop]
    by_cases heof : x.eofReached = false
    · obtain ⟨hok, hround⟩ := Round.fill h hread hroom ht.opened heof e c.serverAddr
      rw [← ht.connection] at hok hround
      refine ⟨_, _, (gbnFillAndSendWindow e c.serverAddr c.connection x.gbn c.file).sends,
        hround, ?_⟩
      rw [if_pos heof]
      exact if_neg hok
    · rw [if_neg heof]
      exact ⟨x, c.file, [], .stay h ((Bool.not_eq_false _).mp heof), rfl⟩
  · rw [not_or, Bool.not_eq_false] at hloop
    have hempty : x.gbn.base = x.gbn.nextseqnum := by
      apply UInt32.toNat_inj.mp
      have hupper := h.represents.upper
      have hge := UInt32.not_lt.mp hloop.2
      rw [UInt32.le_iff_toNat_le] at hge
      omega
    refine ⟨x, c.file, [], .stay h hloop.1, ?_⟩
    rw [Client.step_transfer hpc hx, Client.transferRound, if_pos (by simp [hloop.1, hempty]),
      Client.transferWait, if_pos ⟨hloop.1, hempty⟩]
    rfl

def Transfer.timed (x : Transfer) (ms : UInt64) : Transfer :=
  { x with gbn := { x.gbn with windowTimerMs := ms } }

/-- A window that is not empty is waited for when its timer starts. -/
theorem Client.transferWait_waits {y : Transfer} (hne : y.gbn.base ≠ y.gbn.nextseqnum)
    (htimer : y.gbn.windowTimerMs = 0 ∨ y.gbn.windowTimerMs = e.nowMs) :
    ∃ ms, c.transferWait y e =
      ({ c with pc := .select ms, xfer := some (y.timed e.nowMs) }, []) := by
  have hstart : (if y.gbn.windowTimerMs = 0 then e.nowMs else y.gbn.windowTimerMs) = e.nowMs := by
    split_ifs with h0
    · rfl
    · exact htimer.resolve_left h0
  have helapsed : ¬ e.nowMs - e.nowMs ≥ UInt64.ofNat retransmitIntervalMs := by
    rw [UInt64.sub_self]
    decide
  rw [transferWait, if_neg (fun hdone => hne hdone.2), transferTimer, if_neg hne]
  simp only [hstart, if_neg helapsed]
  exact ⟨_, rfl⟩

/-- After the retransmission interval the whole window is sent again. -/
theorem Client.transferWait_resends {y : Transfer} (hne : y.gbn.base ≠ y.gbn.nextseqnum)
    (h0 : y.gbn.windowTimerMs ≠ 0)
    (hnow : e.nowMs = y.gbn.windowTimerMs + UInt64.ofNat retransmitIntervalMs) :
    c.transferWait y e =
      ({ c with pc := .transfer, xfer := some (y.timed e.restartMs) },
        (gbnRetransmitWindow e c.serverAddr y.gbn).2) := by
  have helapsed : e.nowMs - y.gbn.windowTimerMs ≥ UInt64.ofNat retransmitIntervalMs := by
    rw [hnow, UInt64.add_comm, UInt64.add_sub_cancel]
    exact UInt64.le_refl _
  rw [transferWait, if_neg (fun hdone => hne hdone.2), transferTimer, if_neg hne]
  simp only [if_neg h0, if_pos helapsed, gbnRetransmitWindow, if_neg hne, Transfer.timed]

/-- A retransmission begins with the first chunk that has not been acknowledged. -/
theorem Sending.resends (h : Sending L S x file) (hne : x.gbn.base ≠ x.gbn.nextseqnum)
    (e : Env Addr) (addr : Addr) : ∃ chunk, L.chunks[S.acked]? = some chunk ∧
      ∃ o ∈ (gbnRetransmitWindow e addr x.gbn).2, o.dst = addr ∧
        o.data = (L.data S.acked chunk).bytes ∧ o.sent = e.sendto x.gbn.base := by
  have hacked := h.acked
  have hnext := h.next
  have hlt : S.acked < S.sent := by
    have hle := S.acked_le.trans S.delivered_le
    by_contra hge
    exact hne (UInt32.toNat_inj.mp (by omega))
  obtain ⟨chunk, hchunk⟩ : ∃ chunk, L.chunks[S.acked]? = some chunk :=
    ⟨_, List.getElem?_eq_getElem (hlt.trans_le S.sent_le)⟩
  have hdrop : (L.chunks.take S.sent).drop S.acked =
      chunk :: (L.chunks.take S.sent).drop (S.acked + 1) := by
    have hget : (L.chunks.take S.sent)[S.acked]? = some chunk := by
      rw [List.getElem?_take, if_pos hlt, hchunk]
    obtain ⟨hlen, hval⟩ := List.getElem?_eq_some_iff.mp hget
    rw [List.drop_eq_getElem_cons hlen, hval]
  have hsub : x.gbn.base.toNat - (L.isn.toNat + 1) = S.acked := by omega
  refine ⟨chunk, hchunk, ⟨addr, dataPacket (L.connection 1) x.gbn.base.toNat chunk,
    e.sendto (UInt32.ofNat x.gbn.base.toNat)⟩, ?_, rfl, ?_, ?_⟩
  · rw [gbnRetransmitWindow_sends e addr h.represents, hsub, hdrop]
    exact List.mem_cons_self
  · have hnum : UInt32.ofNat x.gbn.base.toNat = L.num (1 + S.acked) := by
      rw [hacked, Link.num, Nat.add_assoc]
    simp only [dataPacket, hnum]
    rfl
  · simp only [UInt32.ofNat_toNat]

end ReliableUdp

import ReliableUdp.Endpoint.Diagnosis
import ReliableUdp.Session.Continuation
import ReliableUdp.Session.InputSource

namespace ReliableUdp

namespace Server

variable {Addr : Type} {s : Server Addr} {p : Prop}

/-- The loop goes on, or it has been left, with `EX_OK` only if `p` holds. -/
def Sound (s : Server Addr) (p : Prop) : Prop :=
  s.Going ∨ ∃ code, s.Gone code ∧ (code = exOk → p)

theorem Sound.mono {q : Prop} (h : s.Sound p) (hpq : p → q) : s.Sound q := by
  refine h.imp id ?_
  intro hgone
  obtain ⟨code, hcode, hwell⟩ := hgone
  exact ⟨code, hcode, fun hok => hpq (hwell hok)⟩

/-- The server leaves its loop with `EX_OK` from LAST_ACK only. -/
theorem Sound.step (h : s.Sound p) (hp : s.state = .lastAck → p) (config : AppConfig)
    (e : Env Addr) : (s.step config e).1.Sound p := by
  rcases h with hgoing | ⟨code, hgone, hwell⟩
  · rcases hgoing.step config e with hnext | ⟨code, hnext, hwhy⟩
    · exact Or.inl hnext
    · exact Or.inr ⟨code, hnext, fun hok => hp (hwhy.closing hok)⟩
  · rcases hgone.step config e with hnext | ⟨code', hnext, hwhy⟩
    · exact Or.inr ⟨code, hnext, hwell⟩
    · exact Or.inr ⟨code', hnext, fun hok => hp (hwhy.closing hok)⟩

/-- What has been returned is `EX_OK` only if `p` holds. -/
theorem Sound.returned (h : s.Sound p) (hpc : s.pc = .returned exOk) : p := by
  rcases h with hgoing | ⟨code, hgone, hwell⟩
  · rcases hgoing.pc with hfsm | ⟨ms, hsel⟩
    · exact absurd (hpc.symm.trans hfsm) (by simp)
    · exact absurd (hpc.symm.trans hsel) (by simp)
  · rcases hgone.pc with hfsm | hret
    · exact absurd (hpc.symm.trans hfsm) (by simp)
    · exact hwell (ServerPc.returned.inj (hret.symm.trans hpc))

end Server

section Parties

variable {ι : Type} [DecidableEq ι] {p : Params ι} {past : List (Sys ι)} {s : Sys ι}

/-- A server ends with `EX_OK` only behind LAST_ACK. -/
theorem Sys.Run.serverSound (h : Sys.Run p past s) :
    s.server.Sound (∃ t ∈ past, t.server.state = .lastAck) := by
  induction h with
  | start => exact Or.inl ⟨by simp [Params.init, Server.init], Or.inl rfl, rfl⟩
  | @step past s s' hrun hs ih =>
    have hkeep : s.server.Sound (∃ t ∈ s' :: past, t.server.state = .lastAck) := by
      apply ih.mono
      intro hmem
      obtain ⟨t, ht, hst⟩ := hmem
      exact ⟨t, List.mem_cons_of_mem _ ht, hst⟩
    cases hs with
    | client i e net hr hrand => exact hkeep
    | server e net hr hrand hw =>
      exact hkeep.step (fun hst => ⟨s, List.mem_cons_of_mem _ hrun.mem_last, hst⟩) _ e
    | lose d hd => exact hkeep
    | duplicate d hd => exact hkeep

/-- The clients read their inputs from these streams. -/
def Params.reading (p : Params ι) (streams : ι → FileStream) : Params ι :=
  { p with input := fun i => (streams i).file }

/-- A stream that has been read to its end has been read as a whole. -/
theorem ReadToEnd.whole {st : FileStream} {file : InputFile} (h : ReadToEnd st.file file) :
    joinChunks (content st.file) = st.contents := by
  obtain ⟨rest, hinput, heof⟩ := h
  have hrest : rest = [] := by
    cases rest with
    | nil => rfl
    | cons outcome rest =>
      obtain rfl : outcome = .eof := (Prod.mk.inj heof).1
      have hmem : .eof ∈ st.file := by
        rw [hinput]
        exact List.mem_append_right _ List.mem_cons_self
      exact absurd hmem st.splits.ended
  have hchunks : chunksOf st.file = content st.file := by
    conv_lhs => rw [hinput, hrest]
    rw [chunksOf_bytes_append]
    exact List.append_nil _
  rw [← hchunks, st.splits.joined]

/-- Exit code 0 is the truth on both sides, whatever the sources, the network and the operating
system do: behind a client that has returned `EX_OK` the server's `fwrite` has taken all that the
client's source had, and behind a server that has returned `EX_OK` all that the source of some
client had. -/
theorem success_is_true (streams : ι → FileStream) (hinj : Function.Injective p.isn)
    (h : Sys.Run (p.reading streams) past s) :
    (∀ i, (s.clients i).pc = .returned exOk → s.server.output = (streams i).contents) ∧
    (s.server.pc = .returned exOk → ∃ i, s.server.output = (streams i).contents) := by
  have hisn : Function.Injective (p.reading streams).isn := hinj
  obtain ⟨a, ha, hpast⟩ := h.follows hisn
  constructor
  · intro i hret
    obtain ⟨t, ht, hst⟩ := (h.sound i).returned hret
    obtain ⟨b, hb, hba⟩ := hpast t ht
    obtain ⟨S, rfl, hfin⟩ := hb.finSeen_of_timeWait hst
    obtain ⟨T, rfl, hle⟩ := Stage.Steps.le hba rfl
    obtain ⟨hread, hout, _⟩ := ha.joint.complete (hle.finSeen hfin)
    exact hout.trans hread.whole
  · intro hret
    obtain ⟨t, ht, hst⟩ := h.serverSound.returned hret
    obtain ⟨b, hb, hba⟩ := hpast t ht
    rcases hb.server with hserver | ⟨i, S, rfl, hserver⟩
    · exact absurd (hserver.state_ne hst) (by decide)
    · obtain ⟨T, rfl, hle⟩ := Stage.Steps.le hba rfl
      obtain ⟨hread, hout, _⟩ := ha.joint.complete (hle.finSeen (hserver.closing_of hst).finSeen)
      exact ⟨i, hout.trans hread.whole⟩

end Parties

/-- The input of `hello`, which a pipe hands out in two parts with a failing read between them. -/
def helloPipe : Unit → FileStream := fun _ => .running [] [.items 104 [], .failed, .items 105 []]

/-- Two chunks instead of one, and the teardown. -/
def helloWhole : List (Event Unit) :=
  helloSent ++ [.serverRecv 0 1000, .server 1000, .clientRecv () 0 1000, .client () 1000,
    .serverRecv 0 1000, .server 1000, .clientRecv () 0 1000, .client () 1000, .client () 1000,
    .serverRecv 0 1000, .server 1000, .clientRecv () 0 1000, .serverRecv 0 1000, .server 1000,
    .client () 1000, .client () 1000, .client () 1000]

theorem success_is_true_hello :
    ((hello.reading helloPipe).schedule helloWhole).2.server.pc = .returned exOk ∧
    ((hello.reading helloPipe).schedule helloWhole).2.server.output = (helloPipe ()).contents := by
  have hret : (((hello.reading helloPipe).schedule helloWhole).2.clients ()).pc =
      .returned exOk := by decide +kernel
  refine ⟨by decide +kernel, ?_⟩
  exact (success_is_true helloPipe hello.isn_injective
    ((hello.reading helloPipe).schedule_run helloWhole)).1 () hret

end ReliableUdp

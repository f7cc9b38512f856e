import Fairy.OmniRuntime.Pump

namespace Fairy.OmniRuntime

open Fairy.Lib Fairy.Lib.LittleEndian Fairy.Realtime

namespace Session

section Control

variable {contextEpoch : UInt64} {s : Session} {c : Log} {front back : List Sent}
  {frame : CommandFrame} {content pending : List MediaFrame} {x : Answers}

/-- What frames add to a log. -/
theorem run_frames (fs : List MediaFrame) : ∃ n t, c.run (fs.map .frame) =
    { c with mediaSequence := n, mediaTimestampUs := t, since := c.since ++ fs } := by
  induction fs generalizing c with
  | nil => exact ⟨c.mediaSequence, c.mediaTimestampUs, by rw [List.append_nil]; rfl⟩
  | cons f fs ih =>
    obtain ⟨n, t, hrun⟩ := @ih (c.add (.frame f))
    refine ⟨n, t, ?_⟩
    rw [List.map_cons, Log.run, List.foldl_cons, ← Log.run, hrun]
    simp only [Log.add, List.append_assoc, List.singleton_append]

/-- The runtime has read `front` up to a command; the next one closes `fs`. -/
structure Next (s : Session) (c : Log) (back : List Sent) (frame : CommandFrame)
    (fs : List MediaFrame) (back' : List Sent) : Prop where
  split : back = fs.map .frame ++ .command frame :: back'
  allows : Log.Allows s.host.sessionId s.host.segmentId (c.run (fs.map .frame)) (.command frame)
  kept : (c.run (fs.map .frame)).Kept

theorem next_command {rest : List CommandFrame} (hp : s.Plays c front back)
    (hsplit : s.host.sent = front ++ back) (hk : c.Kept)
    (hvalid : Log.Valid s.host.sessionId s.host.segmentId c back)
    (hinput : s.input = frame :: rest) : ∃ fs back', Next s c back frame fs back' := by
  have hcommands : commands back = frame :: rest := by
    rw [← hinput, input, hsplit, Log.commands_append, ← hp.handled, List.drop_left]
  obtain ⟨fs, back', rfl, -⟩ := Log.split_command hcommands
  obtain ⟨hframes, hallows, -⟩ := Log.valid_append.1 hvalid
  exact ⟨fs, back', rfl, hallows, hk.run hframes⟩

/-! What the runtime does with the commands that a host sends. -/

/-- The identity of the next command. -/
def nextIdentity (s : Session) : Identity :=
  ⟨s.host.sessionId, s.host.segmentId, s.runtime.contextEpoch,
    saturatingAdd s.runtime.lastSequence 1⟩

theorem handle_checks (hh : s.Hears c) {id : Identity} (hid : id = s.nextIdentity) :
    requireString "session_id" id.sessionId 128 false = .ok () ∧
      requireString "segment_id" id.segmentId 128 false = .ok () ∧
        requireSafeIdentifier "session_id" id.sessionId = .ok () ∧
          requireSafeIdentifier "segment_id" id.segmentId = .ok () ∧
            requirePositive "context_epoch" id.contextEpoch = .ok () ∧
              requirePositive "sequence" id.sequence = .ok () := by
  obtain ⟨hsession, hsegment, hsafe, hsafe'⟩ := hh.identifiers
  subst hid
  refine ⟨if_pos hsession, if_pos hsegment, if_pos hsafe, if_pos hsafe', if_neg ?_,
    if_neg saturatingAdd_one.1⟩
  rw [nextIdentity, hh.epoch.1]
  exact hh.epoch.2

theorem requireCurrent_eq (hh : s.Hears c) {id : Identity} (hid : id = s.nextIdentity) :
    s.runtime.requireCurrent id = if s.runtime.lastSequence = 18446744073709551615 then
      .error "out-of-order control sequence" else .ok () := by
  subst hid
  unfold ControlRuntime.requireCurrent nextIdentity
  simp only [hh.initialized, hh.session.1, hh.session.2, ne_eq, not_true_eq_false, or_self,
    Bool.true_eq_false, if_false]
  by_cases hfull : s.runtime.lastSequence = 18446744073709551615
  · rw [if_pos (.inl hfull), if_pos hfull]
    rfl
  · rw [if_neg (not_or.2 ⟨hfull, not_not.2 (saturatingAdd_one.2 hfull)⟩), if_neg hfull]
    rfl

/-- A command that a host sends passes every check but the one of the sequence numbers. -/
theorem handle_eq (hh : s.Hears c) (hstopped : s.runtime.stopped = false) {id : Identity}
    (hid : id = s.nextIdentity) (hroom : s.runtime.lastSequence ≠ 18446744073709551615) :
    let r := { s.runtime with lastSequence := id.sequence }
    (∀ n, s.runtime.handle s.buffer x ⟨id, .mediaCommit n⟩ =
        r.handleMediaCommit s.buffer x id.sequence n) ∧
      (∀ next reason summary, s.runtime.handle s.buffer x ⟨id, .contextRotate next reason summary⟩ =
        r.handleContextRotate s.buffer id.sequence next reason summary) ∧
      s.runtime.handle s.buffer x ⟨id, .cancelGeneration⟩ =
        .ok ⟨[r.baseEvent id.sequence (.diagnostic "generation_cancelled" "info")], r,
          s.buffer, []⟩ ∧
      s.runtime.handle s.buffer x ⟨id, .stop⟩ =
        let r := { r with stopped := true, contextActive := false, loaded := false }
        .ok ⟨[r.baseEvent id.sequence (.stopped "requested")], r, s.buffer, []⟩ := by
  obtain ⟨h1, h2, h3, h4, h5, h6⟩ := handle_checks hh hid
  have hcurrent := requireCurrent_eq hh hid
  rw [if_neg hroom] at hcurrent
  refine ⟨fun n => ?_, fun next reason summary => ?_, ?_, ?_⟩
  all_goals
    unfold ControlRuntime.handle
    simp only [hstopped, h1, h2, h3, h4, h5, h6, hcurrent, Bool.false_eq_true, if_false, bind,
      Except.bind, pure, Except.pure]

theorem handle_full (hh : s.Hears c) (hstopped : s.runtime.stopped = false) {id : Identity}
    (hid : id = s.nextIdentity) (hfull : s.runtime.lastSequence = 18446744073709551615)
    {command : Command} (hcommand : ∀ n, command ≠ .hello n) :
    s.runtime.handle s.buffer x ⟨id, command⟩ = .error "out-of-order control sequence" := by
  obtain ⟨h1, h2, h3, h4, h5, h6⟩ := handle_checks hh hid
  have hcurrent := requireCurrent_eq hh hid
  rw [if_pos hfull] at hcurrent
  unfold ControlRuntime.handle
  simp only [hstopped, h1, h2, h3, h4, h5, h6, hcurrent, Bool.false_eq_true, if_false, bind,
    Except.bind]

/-- What the runtime does not refuse. -/
def Servable (s : Session) (x : Answers) : Command → Prop
  | .mediaCommit mediaSequence => s.buffer.lastSequence = mediaSequence ∧ x.submits = true
  | .contextRotate _ reason publicSummary =>
    TextWithin 64 false reason ∧ TextWithin 4096 true publicSummary
  | _ => True

/-- What a command comes to that is not refused. -/
def served (s : Session) (x : Answers) (command : Command) : Handled :=
  let r := { s.runtime with lastSequence := s.nextIdentity.sequence }
  let answered (event : Event) : Handled := ⟨[r.baseEvent r.lastSequence event], r, s.buffer, []⟩
  match command with
  | .mediaCommit mediaSequence => { answered x.spoken with
      runtime := { r with lastMediaSequence := mediaSequence }
      buffer := s.buffer.takeBatch.2
      submitted := [s.buffer.takeBatch.1] }
  | .contextRotate next reason publicSummary =>
    let r := { r with contextEpoch := next, lastMediaSequence := 0 }
    ⟨[r.baseEvent r.lastSequence (.contextRotated reason publicSummary)], r,
      { s.buffer.clearLocked with epoch := next }, []⟩
  | .cancelGeneration => answered (.diagnostic "generation_cancelled" "info")
  | _ => { answered (.stopped "requested") with
      runtime := { r with stopped := true, contextActive := false, loaded := false } }

/-- The commands of a host as the runtime serves them. -/
theorem serve_spec {fs : List MediaFrame} {back' : List Sent} (hh : s.Hears c)
    (hstopped : s.runtime.stopped = false) (hn : Next s c back frame fs back') :
    (s.runtime.lastSequence ≠ 18446744073709551615 ∧ s.Servable x frame.command →
      s.runtime.serve s.buffer x frame = .ok (s.served x frame.command)) ∧
    (¬ (s.runtime.lastSequence ≠ 18446744073709551615 ∧ s.Servable x frame.command) →
      ∃ e, s.runtime.serve s.buffer x frame = .error e) := by
  obtain ⟨id, command⟩ := frame
  obtain ⟨-, ⟨hid, hcommand⟩, hkept⟩ := hn
  obtain ⟨n, t, hrun⟩ := @run_frames c fs
  rw [hrun] at hid hcommand hkept
  have hid : id = s.nextIdentity := by
    rw [hid, nextIdentity, hh.epoch.1, hh.sequence]
  unfold ControlRuntime.serve
  by_cases hfull : s.runtime.lastSequence = 18446744073709551615
  · refine ⟨fun h => absurd hfull h.1, fun _ => ⟨"out-of-order control sequence", ?_⟩⟩
    rw [handle_full hh hstopped hid hfull]
    · rfl
    · rintro m rfl
      exact hcommand
  obtain ⟨hcommit, hrotate, hcancel, hstop⟩ := @handle_eq s c x hh hstopped id hid hfull
  simp only [ne_eq, hfull, not_false_eq_true, true_and]
  cases command with
  | mediaCommit m =>
    have hm : s.runtime.lastMediaSequence < m := by
      obtain ⟨rfl, hsince, -⟩ := hcommand
      have hcount := hkept.chain.sequence
      rw [← hkept.sequence] at hcount
      rw [hh.media, UInt64.lt_iff_toNat_lt, hcount]
      exact Nat.lt_add_of_pos_right (List.length_pos_iff.2 hsince)
    have hhandled := (hcommit m).trans (ControlRuntime.handleMediaCommit_eq
      (r := { s.runtime with lastSequence := id.sequence }) hh.active hm)
    rw [hhandled]
    by_cases hsequence : s.buffer.lastSequence = m
    · cases hsubmits : x.submits with
      | true =>
        rw [if_neg (not_not.2 hsequence), if_neg (c := true = false) nofun, hid]
        exact ⟨fun _ => rfl, fun h => absurd ⟨hsequence, hsubmits⟩ h⟩
      | false =>
        rw [if_neg (not_not.2 hsequence), if_pos rfl]
        exact ⟨fun h => absurd h.2 (by rw [hsubmits]; decide), fun _ => ⟨_, rfl⟩⟩
    · rw [if_pos hsequence]
      exact ⟨fun h => absurd h.1 hsequence, fun _ => ⟨_, rfl⟩⟩
  | contextRotate next reason summary =>
    obtain ⟨hnext, -⟩ := hcommand
    have hzero := (checkedAdd_one hnext).1
    have hhandled := (hrotate next reason summary).trans (ControlRuntime.handleContextRotate_eq
      (r := { s.runtime with lastSequence := id.sequence }) hh.active
      (by rw [hh.epoch.1]; exact hnext))
    rw [hhandled]
    by_cases hreason : TextWithin 64 false reason
    · by_cases hsummary : TextWithin 4096 true summary
      · rw [if_neg (not_not.2 hreason), if_neg (not_not.2 hsummary), hid]
        refine ⟨fun _ => ?_, fun h => absurd ⟨hreason, hsummary⟩ h⟩
        simp only [bind, Except.bind, ControlRuntime.retarget, MediaBuffer.rotateEpoch,
          if_neg hzero]
        rfl
      · rw [if_neg (not_not.2 hreason), if_pos hsummary]
        exact ⟨fun h => absurd h.2 hsummary, fun _ => ⟨_, rfl⟩⟩
    · rw [if_pos hreason]
      exact ⟨fun h => absurd h.1 hreason, fun _ => ⟨_, rfl⟩⟩
  | cancelGeneration =>
    rw [hcancel, hid]
    exact ⟨fun _ => rfl, fun h => absurd trivial h⟩
  | stop =>
    rw [hstop, hid]
    exact ⟨fun _ => rfl, fun h => absurd trivial h⟩
  | hello | load | contextBegin | ping => exact hcommand.elim

/-! A round of the main loop. -/

/-- Where the runtime stands to a host that has asked for no rotation it has heard of. -/
theorem host_epoch (hs : s.Stands contextEpoch) (hw : s.Waits back) (hopen : s.host.phase ≠ .closed)
    (hback : back ≠ []) (hsent : s.host.sent = front ++ back)
    (hvalid : Log.Valid s.host.sessionId s.host.segmentId (.start contextEpoch) s.host.sent) :
    s.host.contextEpoch = ((Log.start contextEpoch).run front).contextEpoch ∧
      ∀ e ∈ s.events, Plain s.host e := by
  rw [hsent] at hvalid
  obtain ⟨hfront, hrest⟩ := Log.valid_append.1 hvalid
  have hkept := Log.kept_start.run hfront
  cases hphase : s.host.phase with
  | closed => exact absurd hphase hopen
  | ready =>
    obtain ⟨hready, hplain⟩ := (stands_ready hphase).1 hs
    refine ⟨?_, hplain⟩
    rw [hready.follows.epoch, LocalOmniBackend.log, hsent, Log.run_append]
    exact (Log.chain_frames hkept hrest (hw.quiet hphase)).1
  | rotating next reason summary =>
    obtain ⟨hplain, id, hlast⟩ := hw.asked next reason summary hphase hback
    refine ⟨?_, hplain⟩
    unfold Stands at hs
    rw [hphase] at hs
    obtain ⟨l, y, rfl⟩ := (List.eq_nil_or_concat back).resolve_left hback
    rw [List.concat_eq_append] at hlast hrest hw
    rw [List.getLast?_concat, Option.some.injEq] at hlast
    subst hlast
    have hquiet := hw.turns
    rw [List.dropLast_concat] at hquiet
    obtain ⟨hbefore, ⟨-, hnext, -⟩, -⟩ := Log.valid_append.1 hrest
    rw [(Log.chain_frames hkept hbefore hquiet).1] at hnext
    have hsame := (checkedAdd_one hs.1).2.2.1.symm.trans (checkedAdd_one hnext).2.2.1
    exact (UInt64.add_left_inj 1).1 hsame

theorem Stands.more {s' : Session} (hs : s.Stands contextEpoch) (hhost : s'.host = s.host)
    (hplain : s.host.phase ≠ .closed → ∀ e ∈ s'.events, Plain s.host e) :
    s'.Stands contextEpoch := by
  unfold Stands at hs ⊢
  rw [hhost]
  cases hphase : s.host.phase with
  | closed => exact trivial
  | ready =>
    rw [hphase] at hs
    exact ⟨hs.1, hplain (by rw [hphase]; nofun)⟩
  | rotating next reason summary =>
    rw [hphase] at hs
    exact ⟨hs.1, hs.2.1, .inl (hplain (by rw [hphase]; nofun))⟩

/-- What is left once a part of it has been heard. -/
theorem Waits.rest {s' : Session} {p back' : List Sent} (hw : s.Waits back)
    (hback : back = p ++ back') (hhost : s'.host = s.host)
    (hplain : s.host.phase ≠ .closed → back' ≠ [] → ∀ e ∈ s'.events, Plain s.host e) :
    s'.Waits back' := by
  subst hback
  refine ⟨fun y hy => ?_, fun hphase y hy => ?_, fun next reason summary hphase hmore => ?_⟩
  · by_cases hnone : back' = []
    · rw [hnone] at hy
      exact absurd hy List.not_mem_nil
    · apply hw.turns
      rw [List.dropLast_append_of_ne_nil hnone]
      exact List.mem_append_right _ hy
  · rw [hhost] at hphase
    exact hw.quiet hphase y (List.mem_append_right _ hy)
  · rw [hhost] at hphase ⊢
    refine ⟨hplain (by rw [hphase]; nofun) hmore, ?_⟩
    obtain ⟨-, id, hlast⟩ := hw.asked next reason summary hphase
      (List.append_ne_nil_of_right_ne_nil _ hmore)
    obtain ⟨y, hy⟩ := Option.ne_none_iff_exists'.1 (mt List.getLast?_eq_none_iff.1 hmore)
    rw [List.getLast?_append, hy] at hlast
    exact ⟨id, hy.trans hlast⟩

theorem plain_event (hh : s.Hears c) (hepoch : s.host.contextEpoch = c.contextEpoch)
    {sequence : UInt64} {event : Event}
    (hevent : Plain s.host ⟨⟨s.host.sessionId, s.host.segmentId, s.host.contextEpoch, 0⟩, event⟩)
    {r : ControlRuntime} (hr : r.sessionId = s.runtime.sessionId ∧
      r.segmentId = s.runtime.segmentId ∧ r.contextEpoch = s.runtime.contextEpoch) :
    Plain s.host (r.baseEvent sequence event) :=
  ⟨⟨hr.1.trans hh.session.1, hr.2.1.trans hh.session.2⟩,
    hr.2.2.trans (hh.epoch.1.trans hepoch.symm), hevent.event⟩

/-- The session once the runtime has served a command. -/
def answered (s : Session) (x : Answers) (command : Command) : Session :=
  { s with
    handled := s.handled + 1
    events := s.events ++ (s.served x command).events
    runtime := (s.served x command).runtime
    buffer := (s.served x command).buffer
    pump := if (s.served x command).runtime.stopped then .stopped else s.pump
    submitted := s.submitted ++ (s.served x command).submitted }

/-- A round of the main loop that reads a command. -/
theorem control_spec {fs : List MediaFrame} {back' : List Sent} {rest : List CommandFrame}
    (hexited : s.exited = none) (hstopped : s.runtime.stopped = false)
    (hinput : s.input = frame :: rest) (hh : s.Hears c) (hn : Next s c back frame fs back') :
    (s.pump = .failed → s.control x = { s with
        handled := s.handled + 1
        events := s.events ++ [s.runtime.baseEvent s.runtime.lastSequence
          (.diagnostic "media_frame_rejected" "error")]
        exited := some "media_frame_rejected" }) ∧
    (s.pump ≠ .failed →
      (s.runtime.lastSequence ≠ 18446744073709551615 ∧ s.Servable x frame.command →
        s.control x = s.answered x frame.command) ∧
      (¬ (s.runtime.lastSequence ≠ 18446744073709551615 ∧ s.Servable x frame.command) →
        ∃ e, s.control x = { s with handled := s.handled + 1, exited := some e })) := by
  have hrunning : ¬ (s.exited ≠ none ∨ s.runtime.stopped = true) := by
    rw [hexited, hstopped]
    decide
  obtain ⟨hok, herror⟩ := @serve_spec s c back frame x fs back' hh hstopped hn
  unfold control
  rw [if_neg hrunning, hinput]
  refine ⟨fun hpump => ?_, fun hpump => ⟨fun hserved => ?_, fun hrefused => ?_⟩⟩
  · rw [hpump]
  · simp only [hok hserved]
    cases hcase : s.pump with
    | failed => exact absurd hcase hpump
    | _ =>
      unfold answered
      rw [hcase]
  · obtain ⟨e, he⟩ := herror hrefused
    simp only [he]
    cases hcase : s.pump with
    | failed => exact absurd hcase hpump
    | _ => exact ⟨e, rfl⟩

/-- The batch that the runtime takes holds what the commit closes. -/
theorem takeBatch_eq {b : MediaBuffer} (hb : Holds b c content)
    (hfits : MediaBuffer.ringBytes (micFrames content) ≤ kMaxAudioRingBytes) :
    b.takeBatch.1 = batchOf content b.lastSequence := by
  have hjpeg : b.latestVideo.filter (fun frame => frame.header.kind = .jpeg) =
      (videoFrames content).getLast? := by
    rw [hb.video]
    cases hlast : (videoFrames content).getLast? with
    | none => rfl
    | some frame =>
      exact if_pos (List.mem_filter.1 (List.mem_of_getLast? hlast)).2
  unfold MediaBuffer.takeBatch batchOf
  rw [hb.microphone hfits, hjpeg]

/-- The frames that a commit with the sequence of the buffer closes are those that it holds. -/
theorem Media.closes {fs : List MediaFrame} {back' : List Sent} {id : Identity} {n : UInt64}
    (hm : s.Media c back) (hpump : s.pump ≠ .failed)
    (hn : Next s c back ⟨id, .mediaCommit n⟩ fs back')
    (hchain : Log.Chain c.contextEpoch c.markSequence c.markTimestampUs (c.since ++ frames back))
    (hsequence : s.buffer.lastSequence = n) :
    s.Reads (frames back') ∧ Holds s.buffer c (c.since ++ fs) := by
  obtain ⟨rfl, hallows, hkept⟩ := hn
  obtain ⟨m, t, hrun⟩ := @run_frames c fs
  rw [hrun] at hallows hkept
  obtain ⟨-, rfl, hsince, -⟩ := hallows
  have hcount := hkept.chain.sequence
  rw [← hkept.sequence] at hcount
  have hpositive := List.length_pos_iff.2 hsince
  simp only at hcount hpositive hsequence
  obtain (hfailed | ⟨hzero, -⟩) | ⟨content, pending, hsplit, hreads, hholds⟩ := hm
  · exact absurd hfailed hpump
  · -- nothing has been read of the context
    rw [hsequence] at hzero
    rw [hzero] at hcount
    have hnone : (0 : UInt64).toNat = 0 := rfl
    omega
  · have hfar : frames (fs.map .frame ++ .command ⟨id, .mediaCommit n⟩ :: back') =
        fs ++ frames back' := by
      rw [Log.frames_append, Log.frames_map]
      rfl
    rw [hfar, ← List.append_assoc] at hsplit
    rw [hfar, ← List.append_assoc, hsplit] at hchain
    have hread := (Log.chain_append.1 hchain).1.sequence
    rw [← hholds.sequence, hsequence] at hread
    obtain ⟨rfl, rfl⟩ := List.append_inj hsplit (by omega)
    exact ⟨hreads, hholds⟩

/-- A command that leaves the buffer as it is. -/
theorem Media.goes {s' : Session} {c' : Log} {back' : List Sent} (hm : s.Media c back)
    (hpump : s.pump ≠ .failed) (hreads : ∀ pending, s.Reads pending → s'.Reads pending)
    (hbuffer : s'.buffer = s.buffer)
    (hmark : c'.markSequence = c.markSequence ∧ c'.markTimestampUs = c.markTimestampUs)
    (hsplit : c.since ++ frames back = c'.since ++ frames back') : s'.Media c' back' := by
  obtain (hfailed | ⟨hzero, frame, rest, hpending, hstale⟩) |
    ⟨content, pending, hheld, hpending, hholds⟩ := hm
  · exact absurd hfailed hpump
  · rw [← hbuffer] at hzero hstale
    exact .inl (.inr ⟨hzero, frame, rest, hreads _ hpending, hstale⟩)
  · refine .inr ⟨content, pending, hsplit.symm.trans hheld, hreads _ hpending, ?_⟩
    rw [hbuffer]
    obtain ⟨hsequence, htimestamp, hcadence, hmicrophone, hvideo⟩ := hholds
    rw [← hmark.1] at hsequence
    rw [← hmark.2] at htimestamp
    exact ⟨hsequence, htimestamp, hcadence, hmicrophone, hvideo⟩

theorem Holds.taken {b : MediaBuffer} {c' : Log} (hb : Holds b c content)
    (hsequence : c'.markSequence = Log.lastSequence c.markSequence content)
    (htimestamp : c'.markTimestampUs = Log.lastTimestampUs c.markTimestampUs content) :
    Holds b.takeBatch.2 c' [] :=
  ⟨hb.sequence.trans hsequence.symm, hb.timestamp.trans htimestamp.symm, hb.cadence, fun _ => rfl,
    rfl⟩

/-- What the runtime holds after it has heard of a rotation: nothing, and what is still in the pipe
is of an older context. -/
theorem Media.rotates {s' : Session} {c' : Log} (hm : s.Media c back) (hpump : s.pump ≠ .failed)
    (hh : s.Hears c)
    (hchain : Log.Chain c.contextEpoch c.markSequence c.markTimestampUs (c.since ++ frames back))
    (hreads : ∀ pending, s.Reads pending → s'.Reads pending) {next : UInt64}
    (hbuffer : s'.buffer = { s.buffer.clearLocked with epoch := next })
    (hnext : c.contextEpoch < next)
    (hmark : c'.markSequence = 0 ∧ c'.markTimestampUs = 0 ∧ c'.since = []) : s'.Media c' [] := by
  have hzero : s'.buffer.lastSequence = 0 := by
    rw [hbuffer]
    rfl
  have hepoch : s'.buffer.epoch = next := by
    rw [hbuffer]
  obtain (hfailed | ⟨-, frame, rest, hpending, hversion, hlength, hstale⟩) |
    ⟨content, pending, hsplit, hpending, hholds⟩ := hm
  · exact absurd hfailed hpump
  · refine .inl (.inr ⟨hzero, frame, rest, hreads _ hpending, hversion, hlength, ?_⟩)
    rw [hepoch]
    rw [hh.buffer] at hstale
    exact UInt64.lt_trans hstale hnext
  · cases pending with
    | nil =>
      refine .inr ⟨[], [], by rw [hmark.2.2]; rfl, hreads _ hpending, ?_⟩
      rw [hbuffer]
      exact ⟨hmark.1.symm, hmark.2.1.symm, .inl rfl, fun _ => rfl, rfl⟩
    | cons frame rest =>
      rw [hsplit] at hchain
      obtain ⟨-, -, hheader, -⟩ := (Log.chain_append.1 hchain).2
      refine .inl (.inr ⟨hzero, frame, rest, hreads _ hpending, by rw [hheader],
        (payloadLength_eq (Log.chain_append.1 hchain).2).symm, ?_⟩)
      rw [hepoch, (congrArg MediaHeader.sessionEpoch hheader :)]
      exact hnext

/-- The invariant behind a command. -/
theorem Inv.heardTo {s' : Session} {fs : List MediaFrame} {back' : List Sent}
    (hi : s.Inv contextEpoch) (hsent : s.host.sent = front ++ back)
    (hc : (Log.start contextEpoch).run front = c) (hn : Next s c back frame fs back')
    (hcount : (commands front).length = s.handled) (hhost : s'.host = s.host)
    (hhandled : s'.handled = s.handled + 1) (hstands : s'.Stands contextEpoch)
    (hsubmitted : s'.submitted = ((c.run (fs.map .frame)).add (.command frame)).batches)
    (hplays : s'.runtime.stopped = false →
      s'.Hears ((c.run (fs.map .frame)).add (.command frame)) ∧ s'.Waits back' ∧
        s'.Media ((c.run (fs.map .frame)).add (.command frame)) back') :
    s'.Inv contextEpoch := by
  have hrun : (Log.start contextEpoch).run (front ++ fs.map .frame ++ [.command frame]) =
      (c.run (fs.map .frame)).add (.command frame) := by
    rw [Log.run_append, Log.run_append, hc]
    rfl
  refine ⟨hhost ▸ hi.valid, hstands, front ++ fs.map .frame ++ [.command frame], back', ?_,
    hrun ▸ hsubmitted, fun _ hstopped => ?_⟩
  · rw [hhost, hsent, hn.split]
    simp only [List.append_assoc, List.singleton_append]
  · obtain ⟨hhears, hwaits, hmedia⟩ := hplays hstopped
    refine ⟨?_, hrun ▸ hhears, hwaits, hrun ▸ hmedia⟩
    rw [Log.commands_append, Log.commands_append, Log.commands_map, List.append_nil,
      List.length_append, hcount, hhandled]
    rfl

/-- A command that the runtime serves. -/
theorem Inv.answered {fs : List MediaFrame} {back' : List Sent} (hi : s.Inv contextEpoch)
    (hsent : s.host.sent = front ++ back) (hc : (Log.start contextEpoch).run front = c)
    (hbatches : s.submitted = c.batches) (hp : s.Plays c front back)
    (hstopped : s.runtime.stopped = false) (hpump : s.pump ≠ .failed)
    (hn : Next s c back frame fs back') (hserved : s.Servable x frame.command) :
    (s.answered x frame.command).Inv contextEpoch := by
  obtain ⟨hcount, hh, hw, hm⟩ := hp
  have hvalid := hi.valid
  rw [hsent] at hvalid
  have hvalid := Log.valid_append.1 hvalid
  rw [hc] at hvalid
  have hchain := hw.chain (hc ▸ Log.kept_start.run hvalid.1) hvalid.2
  have hback : back ≠ [] := by
    rw [hn.split]
    exact List.append_ne_nil_of_right_ne_nil _ (List.cons_ne_nil _ _)
  have hplain := fun hopen => host_epoch hi.stands hw hopen hback hsent hi.valid
  rw [hc] at hplain
  have hadvance : back = (fs.map .frame ++ [.command frame]) ++ back' := by
    rw [hn.split, List.append_assoc]
    rfl
  have hkept := hn.kept
  have hallows := hn.allows
  obtain ⟨m, t, hrun⟩ := @run_frames c fs
  rw [hrun] at hkept hallows
  obtain ⟨id, command⟩ := frame
  have hid : s.nextIdentity.sequence = id.sequence := by
    rw [hallows.1, nextIdentity, hh.sequence]
  -- what the runtime answers to any command but a rotation
  have hevents : ∀ (r : ControlRuntime) (event : Event), r.sessionId = s.runtime.sessionId ∧
      r.segmentId = s.runtime.segmentId ∧ r.contextEpoch = s.runtime.contextEpoch →
      Plain s.host ⟨⟨s.host.sessionId, s.host.segmentId, s.host.contextEpoch, 0⟩, event⟩ →
      s.host.phase ≠ .closed →
        ∀ e ∈ s.events ++ [r.baseEvent r.lastSequence event], Plain s.host e := by
    intro r event hr hevent hopen
    obtain ⟨hepoch, hall⟩ := hplain hopen
    refine List.forall_mem_append.2 ⟨hall, List.forall_mem_singleton.2 ?_⟩
    exact plain_event hh hepoch hevent hr
  have hreading : ∀ command, (s.served x command).runtime.stopped = s.runtime.stopped →
      ∀ pending, s.Reads pending → (s.answered x command).Reads pending := by
    intro command hsame pending hreads
    have hstays : (s.answered x command).pump = s.pump := if_neg (by
      rw [hsame, hstopped]
      decide)
    unfold Reads at hreads ⊢
    rw [hstays]
    exact hreads
  cases command with
  | mediaCommit n =>
    obtain ⟨hreads, hholds⟩ := hm.closes hpump hn hchain hserved.1
    have hbatch := takeBatch_eq hholds hallows.2.2.2
    have hall : s.host.phase ≠ .closed →
        ∀ e ∈ (s.answered x (.mediaCommit n)).events, Plain s.host e :=
      hevents _ _ ⟨rfl, rfl, rfl⟩ ⟨⟨rfl, rfl⟩, rfl, trivial⟩
    refine hi.heardTo hsent hc hn hcount rfl rfl (hi.stands.more rfl hall) ?_ fun _ => ⟨?_, ?_, ?_⟩
    · rw [hrun]
      change s.submitted ++ [s.buffer.takeBatch.1] = c.batches ++ [batchOf (c.since ++ fs) n]
      rw [hbatch, hbatches, hserved.1]
    · rw [hrun]
      exact ⟨hh.initialized, hh.active, hh.session, hh.identifiers, hh.epoch, hid, hallows.2.1,
        hh.buffer, hh.sized.takeBatch⟩
    · exact hw.rest hadvance rfl fun hopen _ => hall hopen
    · rw [hrun]
      exact .inr ⟨[], frames back', rfl, hreading _ rfl _ hreads,
        hholds.taken hkept.sequence hkept.timestamp⟩
  | contextRotate next reason summary =>
    obtain ⟨hzero, -, -, hlater⟩ := checkedAdd_one hallows.2.1
    have hmem : .command ⟨id, .contextRotate next reason summary⟩ ∈ back := by
      rw [hadvance]
      exact List.mem_append_left _ (List.mem_append_right _ List.mem_cons_self)
    -- the host waits, and has written nothing behind the rotation
    have hlast : back' = [] := by
      by_contra hmore
      refine hw.turns (.command ⟨id, .contextRotate next reason summary⟩) ?_ trivial
      rw [hadvance, List.dropLast_append_of_ne_nil hmore]
      exact List.mem_append_left _ (List.mem_append_right _ List.mem_cons_self)
    subst hlast
    refine hi.heardTo hsent hc hn hcount rfl rfl ?_ ?_ fun _ => ⟨?_, ?_, ?_⟩
    · have hs := hi.stands
      unfold Stands at hs ⊢
      cases hphase : s.host.phase with
      | closed =>
        have hgone : (s.answered x (.contextRotate next reason summary)).host.phase = .closed :=
          hphase
        rw [hgone]
        exact trivial
      | ready => exact absurd trivial (hw.quiet hphase _ hmem)
      | rotating next' reason' summary' =>
        obtain ⟨hall, id', hasked⟩ := hw.asked _ _ _ hphase hback
        rw [hadvance, List.append_nil, List.getLast?_concat] at hasked
        cases hasked
        rw [hphase] at hs
        have hwaiting : (s.answered x (.contextRotate next reason summary)).host.phase =
            .rotating next reason summary := hphase
        rw [hwaiting]
        refine ⟨hs.1, hs.2.1, .inr ⟨s.events, s.nextIdentity.sequence, ?_, hall⟩⟩
        change s.events ++ [⟨⟨s.runtime.sessionId, s.runtime.segmentId, next, _⟩, _⟩] = _
        rw [hh.session.1, hh.session.2]
        rfl
    · rw [hrun]
      exact (List.append_nil _).trans hbatches
    · rw [hrun]
      exact ⟨hh.initialized, hh.active, hh.session, hh.identifiers, ⟨rfl, hzero⟩, hid, rfl, rfl,
        { MediaBuffer.Sized.clearLocked s.buffer with }⟩
    · exact ⟨nofun, nofun, fun _ _ _ _ hmore => absurd rfl hmore⟩
    · rw [hrun]
      exact hm.rotates hpump hh hchain (hreading _ rfl) rfl hlater ⟨rfl, rfl, rfl⟩
  | cancelGeneration =>
    have hall : s.host.phase ≠ .closed →
        ∀ e ∈ (s.answered x .cancelGeneration).events, Plain s.host e :=
      hevents _ _ ⟨rfl, rfl, rfl⟩ ⟨⟨rfl, rfl⟩, rfl, by decide, by decide⟩
    refine hi.heardTo hsent hc hn hcount rfl rfl (hi.stands.more rfl hall) ?_ fun _ => ⟨?_, ?_, ?_⟩
    · rw [hrun]
      exact (List.append_nil _).trans hbatches
    · rw [hrun]
      exact ⟨hh.initialized, hh.active, hh.session, hh.identifiers, hh.epoch, hid, hh.media,
        hh.buffer, hh.sized⟩
    · exact hw.rest hadvance rfl fun hopen _ => hall hopen
    · rw [hrun]
      refine hm.goes hpump (hreading _ rfl) rfl ⟨rfl, rfl⟩ ?_
      rw [hn.split, Log.frames_append, Log.frames_map]
      exact (List.append_assoc ..).symm
  | stop =>
    have hall : s.host.phase ≠ .closed → ∀ e ∈ (s.answered x .stop).events, Plain s.host e :=
      hevents _ _ ⟨rfl, rfl, rfl⟩ ⟨⟨rfl, rfl⟩, rfl, trivial⟩
    refine hi.heardTo hsent hc hn hcount rfl rfl (hi.stands.more rfl hall) ?_ nofun
    rw [hrun]
    exact (List.append_nil _).trans hbatches
  | hello | load | contextBegin | ping => exact hallows.2.elim

/-- What is at hand when the runtime reads a command. -/
theorem Inv.next {rest : List CommandFrame} (hi : s.Inv contextEpoch) (hexited : s.exited = none)
    (hstopped : s.runtime.stopped = false) (hinput : s.input = frame :: rest) :
    ∃ c front back fs back', s.host.sent = front ++ back ∧
      (Log.start contextEpoch).run front = c ∧ s.submitted = c.batches ∧ s.Plays c front back ∧
        Next s c back frame fs back' := by
  obtain ⟨front, back, hsent, hbatches, hplays⟩ := hi.heard
  have hp := hplays hexited hstopped
  have hvalid := hi.valid
  rw [hsent] at hvalid
  have hvalid := Log.valid_append.1 hvalid
  obtain ⟨fs, back', hn⟩ := next_command hp hsent (Log.kept_start.run hvalid.1) hvalid.2 hinput
  exact ⟨_, front, back, fs, back', hsent, rfl, hbatches, hp, hn⟩

theorem Inv.control (hi : s.Inv contextEpoch) (x : Answers) :
    (s.control x).Inv contextEpoch := by
  by_cases hover : s.exited ≠ none ∨ s.runtime.stopped = true
  · unfold Session.control
    rw [if_pos hover]
    exact hi
  obtain ⟨hexited, hstopped⟩ := not_or.1 hover
  have hexited := not_not.1 hexited
  have hstopped := Bool.not_eq_true _ ▸ hstopped
  cases hinput : s.input with
  | nil =>
    unfold Session.control
    rw [if_neg hover, hinput]
    exact hi
  | cons frame rest =>
    obtain ⟨c, front, back, fs, back', hsent, hc, hbatches, hp, hn⟩ :=
      hi.next hexited hstopped hinput
    obtain ⟨hfailed, hruns⟩ := @control_spec s c back frame x fs back' rest hexited hstopped
      hinput hp.hears hn
    by_cases hpump : s.pump = .failed
    · rw [hfailed hpump]
      have hback : back ≠ [] := by
        rw [hn.split]
        exact List.append_ne_nil_of_right_ne_nil _ (List.cons_ne_nil _ _)
      refine ⟨hi.valid, hi.stands.more rfl fun hopen => ?_, front, back, hsent, hc ▸ hbatches,
        nofun⟩
      obtain ⟨hepoch, hall⟩ := host_epoch hi.stands hp.waits hopen hback hsent hi.valid
      rw [hc] at hepoch
      refine List.forall_mem_append.2 ⟨hall, List.forall_mem_singleton.2 ?_⟩
      have hevent : Plain s.host ⟨⟨s.host.sessionId, s.host.segmentId, s.host.contextEpoch, 0⟩,
          .diagnostic "media_frame_rejected" "error"⟩ :=
        ⟨⟨rfl, rfl⟩, rfl, by decide, by decide⟩
      exact plain_event hp.hears hepoch hevent ⟨rfl, rfl, rfl⟩
    · obtain ⟨hserves, hrefuses⟩ := hruns hpump
      by_cases hserved : s.runtime.lastSequence ≠ 18446744073709551615 ∧ s.Servable x frame.command
      · rw [hserves hserved]
        exact hi.answered hsent hc hbatches hp hstopped hpump hn hserved.2
      · obtain ⟨e, he⟩ := hrefuses hserved
        rw [he]
        exact ⟨hi.valid, hi.stands, front, back, hsent, hc ▸ hbatches, nofun⟩

end Control

end Session

end Fairy.OmniRuntime

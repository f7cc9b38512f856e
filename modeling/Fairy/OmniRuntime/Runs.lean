import Fairy.OmniRuntime.Rounds

namespace Fairy.OmniRuntime

open Fairy.Lib Fairy.Lib.LittleEndian Fairy.Realtime

namespace Session

/-- A runtime that has answered what `connect` sends. -/
def Connects (sessionId segmentId : String) (contextEpoch : UInt64) (r : ControlRuntime)
    (b : MediaBuffer) : Prop :=
  ∃ x x' x'' digest version instruction, ControlRuntime.serveAll .new .new
    ([x, x', x''].zip
      (greeting sessionId segmentId contextEpoch digest version instruction)) = .ok (r, b)

section Start

variable {sessionId segmentId : String} {contextEpoch : UInt64} {r r' : ControlRuntime}
  {b b' : MediaBuffer} {x : Answers} {frame : CommandFrame} {done : Handled} {s : Session}

/-- A session that has begun. -/
theorem Inv.start (h : Connects sessionId segmentId contextEpoch r b) :
    (connected sessionId segmentId contextEpoch r b).Inv contextEpoch := by
  obtain ⟨x, x', x'', digest, version, instruction, h⟩ := h
  obtain ⟨done, h1, h⟩ := bind_ok h
  obtain ⟨done', h2, h⟩ := bind_ok h
  obtain ⟨done'', h3, h⟩ := bind_ok h
  cases pure_ok h
  obtain ⟨handled, c, hhandled, hbuffer, rfl⟩ := ControlRuntime.serve_ok h1
  obtain ⟨handled', c', hhandled', hbuffer', rfl⟩ := ControlRuntime.serve_ok h2
  obtain ⟨handled'', c'', hhandled'', hbuffer'', rfl⟩ := ControlRuntime.serve_ok h3
  obtain ⟨hsession, hsegment, hsafe, hsafe', hepoch, hb, hr⟩ := ControlRuntime.handle_hello hhandled
  obtain ⟨hb', hr'⟩ := ControlRuntime.handle_load hhandled'
  obtain ⟨hb'', hr''⟩ := ControlRuntime.handle_contextBegin hhandled''
  have hrotated : c = { MediaBuffer.new with epoch := contextEpoch } := by
    have hsame : MediaBuffer.rotateEpoch .new contextEpoch = (.ok (), c) := by
      rw [← hbuffer, hb]
      rfl
    rw [MediaBuffer.rotateEpoch, if_neg hepoch] at hsame
    exact (congrArg Prod.snd hsame).symm
  have hkept : c' = c := (congrArg Prod.snd hbuffer').symm.trans hb'
  have hconfigured : c'' = c := by
    have hsame : MediaBuffer.configureVideo c 0 0 = (.ok (), c'') := by
      rw [← hbuffer'', hb'', hkept]
      rfl
    rw [hrotated] at hsame ⊢
    have hnone : MediaBuffer.configureVideo { MediaBuffer.new with epoch := contextEpoch } 0 0 =
        (.ok (), { MediaBuffer.new with epoch := contextEpoch }) := by
      simp [MediaBuffer.configureVideo, MediaBuffer.new]
    rw [hnone] at hsame
    exact (congrArg Prod.snd hsame).symm
  have hvalid : Log.Valid sessionId segmentId (.start contextEpoch) [] := trivial
  refine ⟨hvalid, ⟨⟨⟨hvalid, rfl, rfl, rfl, rfl, rfl⟩, Nat.zero_lt_succ _⟩,
    fun _ h => absurd h List.not_mem_nil⟩, [], [], rfl, rfl,
    fun _ _ => ⟨rfl, ?_, ⟨fun _ h => absurd h List.not_mem_nil,
      fun _ _ h => absurd h List.not_mem_nil, fun _ _ _ _ h => absurd rfl h⟩, ?_⟩⟩
  · rw [hconfigured]
    simp only [hr'', hr', hr]
    exact ⟨rfl, rfl, ⟨rfl, rfl⟩, ⟨hsession, hsegment, hsafe, hsafe'⟩, ⟨rfl, hepoch⟩, rfl, rfl,
      hrotated ▸ rfl, hrotated ▸ { MediaBuffer.Sized.clearLocked MediaBuffer.new with }⟩
  · refine .inr ⟨[], [], rfl, ⟨Nat.le_refl 0, rfl⟩, ?_⟩
    rw [hconfigured, hrotated]
    exact ⟨rfl, rfl, .inl rfl, fun _ => rfl, rfl⟩

theorem Inv.after (hi : s.Inv contextEpoch) (a : Act) : (s.after a).Inv contextEpoch := by
  cases a with
  | pushMicrophone pcm16 => exact hi.call (fun h hr => pushMicrophone_spec hr pcm16) true
  | pushApplicationAudio pcm16 =>
    exact hi.call (fun h hr => pushApplicationAudio_spec hr pcm16) false
  | pushVideo jpeg => exact hi.call (fun h hr => pushVideo_spec hr jpeg) true
  | pause => exact hi.call (fun h hr => pause_spec hr) true
  | rotateContext next reason summary => exact hi.rotateContext next reason summary
  | stop => exact hi.stop
  | receive => exact hi.receive
  | abandon => exact hi.abandon
  | pump => exact hi.pump
  | control x => exact hi.control x

theorem Inv.of_run (hc : Connects sessionId segmentId contextEpoch r b)
    (h : Run Step (fun _ _ => True) (connected sessionId segmentId contextEpoch r b) s) :
    s.Inv contextEpoch :=
  h.invariant (fun s a s' hi _ hs => by rw [hs]; exact hi.after a) (.start hc)

/-! One session. -/

end Start

end Session

end Fairy.OmniRuntime

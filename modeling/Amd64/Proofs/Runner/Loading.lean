import Amd64.Proofs.Machine.Equivalence
import Amd64.Proofs.Outcome
import Amd64.Runner.Session

namespace Amd64

/-!
# What is loaded

A session begins with a machine that calls of this library lead to, and without a recorder.

* `Loads`                    — computations that lead from reachable address spaces to reachable ones;
* `Session.loads_load`       — loading an image is one;
* `Options.reachable_session` — what the session of a command line begins with.
-/

/-- From a reachable address space the computation leads to a reachable one, also if it fails, and what it
    yields has the property. -/
def Loads {ε α : Type} (x : ExceptT ε (StateM Memory) α) (Q : α → Prop) : Prop :=
  ∀ m : Memory, m.Reachable → (outcome x m).2.Reachable ∧ ∀ v, (outcome x m).1 = .ok v → Q v

section
variable {ε α β : Type} {x : ExceptT ε (StateM Memory) α} {Q : α → Prop}

/-- A value is loaded if it meets the condition. -/
theorem loads_pure {v : α} (h : Q v) : Loads (pure v : ExceptT ε (StateM Memory) α) Q := by
  intro m hm
  refine ⟨hm, fun w hw => ?_⟩
  exact Except.ok.inj hw ▸ h

/-- After an error nothing is loaded. -/
theorem loads_throw (e : ε) : Loads (throw e : ExceptT ε (StateM Memory) α) Q :=
  fun _ hm => ⟨hm, nofun⟩

/-- Parts are loaded one after the other. -/
theorem Loads.bind {f : α → ExceptT ε (StateM Memory) β} {Q' : β → Prop} (hx : Loads x Q)
    (hf : ∀ v, Q v → Loads (f v) Q') : Loads (x >>= f) Q' := by
  intro m hm
  have hfirst := hx m hm
  rw [outcome_bind]
  generalize outcome x m = p at hfirst ⊢
  obtain ⟨e | v, m'⟩ := p
  · exact ⟨hfirst.1, nofun⟩
  · exact hf v (hfirst.2 v rfl) m' hfirst.1

/-- An error is the end, whatever would come next. -/
theorem loads_throw_bind (e : ε) (f : β → ExceptT ε (StateM Memory) α) :
    Loads (throw e >>= f : ExceptT ε (StateM Memory) α) Q := by
  intro m hm
  rw [outcome_bind, outcome_throw]
  exact ⟨hm, nofun⟩

/-- A call with the error in other words. -/
theorem loads_withMemory {wrap : MemoryError → RunnerError} {x : MemoryM α} (h : Loads x Q) :
    Loads (withMemory wrap x) Q := by
  intro m hm
  have hcall := h m hm
  unfold withMemory
  rw [outcome_mk, run_run]
  generalize outcome x m = p at hcall ⊢
  obtain ⟨e | v, m'⟩ := p
  · exact ⟨hcall.1, nofun⟩
  · refine ⟨hcall.1, fun w hw => ?_⟩
    exact Except.ok.inj hw ▸ hcall.2 v rfl

/-- Calls lead from reachable address spaces to reachable ones. -/
theorem loads_map (segment : Segment) (data : ByteArray) : Loads (Memory.map segment data) fun _ => True :=
  fun _ hm => ⟨hm.afterCalls [.map segment data], fun _ _ => trivial⟩

/-- With a stack come registers that a program may begin with. -/
theorem loads_mapStack (c : StackConfig) : Loads (Memory.mapStack c) Cpu.Reachable := by
  have hrest : Loads (do
      Memory.map ⟨c.bottom, c.top, .readWrite, 0, "[stack]"⟩ ByteArray.empty
      return Cpu.initial.setGpr .rsp (c.address - 16)) Cpu.Reachable :=
    (loads_map _ _).bind fun _ _ => loads_pure (.setGpr .rsp _ .initial)
  unfold Memory.mapStack Memory.mapStackOn
  split
  · exact loads_throw_bind _ _
  · exact hrest

end

namespace Session

/-- Loading an image, whether it succeeds or fails. -/
theorem loads_load (o : Options) (image : ByteArray) : Loads (load o image) Cpu.Reachable := by
  have hmap : ∀ wrap segment data, Loads (withMemory wrap (Memory.map segment data)) fun _ => True :=
    fun wrap segment data => loads_withMemory (loads_map segment data)
  -- the processor is that of the stack, with its registers set
  have hstack : ∀ imageEnd, Loads (do
      let cpu ← withMemory .stackNotMapped (Memory.mapStack ⟨o.stackAddress, o.stackSize⟩)
      let cpu := cpu.setRip (o.entry.getD o.base)
      return if o.heapSize = 0 then cpu else cpu.setGpr .rdi imageEnd) Cpu.Reachable := by
    intro imageEnd
    refine (loads_withMemory (loads_mapStack _)).bind fun cpu hcpu => loads_pure ?_
    split
    · exact hcpu.setRip _
    · exact (hcpu.setRip _).setGpr _ _
  unfold load
  by_cases hempty : image.size = 0
  · rw [if_pos hempty]
    exact loads_throw_bind _ _
  · rw [if_neg hempty]
    cases endOfPages? o.base (UInt64.ofNat image.size) with
    | none => exact loads_throw _
    | some imageEnd =>
      refine (hmap _ _ _).bind fun _ _ => ?_
      by_cases hheap : o.heapSize = 0
      · rw [if_neg (not_not.mpr hheap)]
        exact hstack imageEnd
      · rw [if_pos hheap]
        cases endOfPages? imageEnd o.heapSize with
        | none => exact loads_throw_bind _ _
        | some heapEnd => exact (hmap _ _ _).bind fun _ _ => hstack imageEnd

/-- **Sessions.** A session begins with a reachable machine and without a recorder. -/
theorem reachable_create {o : Options} {image : ByteArray} {s : Session} (h : create o image = .ok s) :
    s.machine.cpu.Reachable ∧ s.machine.bus.Reachable ∧ s.recorder = none := by
  have hload := loads_load o image (.empty {}) ⟨{}, [], rfl⟩
  rw [create, run_run] at h
  generalize outcome (load o image) (.empty {}) = p at hload h
  obtain ⟨e | cpu, memory⟩ := p
  · cases h
  · obtain rfl := Except.ok.inj h
    exact ⟨hload.2 cpu rfl, hload.1, rfl⟩

end Session

/-- So does one that a command line begins with. -/
theorem Options.reachable_session {o : Options} {image : Except String ByteArray} {s : Session}
    (h : o.session image = .ok s) :
    s.machine.cpu.Reachable ∧ s.machine.bus.Reachable ∧ s.recorder = none := by
  cases image with
  | error reason => cases h
  | ok bytes => exact Session.reachable_create h

end Amd64

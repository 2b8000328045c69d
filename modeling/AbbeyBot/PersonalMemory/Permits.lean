import Mathlib
import AbbeyBot.PersonalMemory.Provenance

/-! # Permits

Along every interleaving of requests with the steps of their transactions the exposure epoch never
falls and the proofs in memory and in the file are accounted for. The environment of a transaction are
the requests that are prepared meanwhile: they leave proofs, actions, publication and files alone. -/

namespace AbbeyBot.PersonalMemory

open AbbeyBot.Library.History AbbeyBot.Library.OrderedMap AbbeyBot.Library.Result
open AbbeyBot.Library.Threads AbbeyBot.Library.Word

variable {C : Codec} {B : String → String → String → Prop}

/-! ### The invariant -/

/-- The canonical file as a state. -/
def Disk.stores (d : Disk) : Stores := { d.payload with canonicalBase := none, actions := d.actions }

/-- Memory and file are accounted for, the file is ahead of the memory, and what is known as
uninstalled was made from the memory as it is. -/
structure World.Good (C : Codec) (B : String → String → String → Prop) (w : World) : Prop where
  live : PersonalMemory.Good C B w.live
  disk : PersonalMemory.Good C B w.disk.stores
  ahead : w.live.actions <+: w.disk.actions
  known : ∀ known ∈ w.publication, SameCore known.base w.live

/-- What the preparation of a request may do to the state. -/
structure Environment (w w' : World) : Prop where
  disk : w'.disk = w.disk
  publication : w'.publication = w.publication
  core : SameCore w.live w'.live
  subjects : ∀ key ∈ w.live.personalMemory, key ∈ w'.live.personalMemory
  epoch : w.live.exposure.epoch ≤ w'.live.exposure.epoch

/-- What a step of a transaction keeps. -/
structure Guarantee (C : Codec) (B : String → String → String → Prop) (w w' : World) : Prop where
  epoch : w.live.exposure.epoch ≤ w'.live.exposure.epoch
  good : w.Good C B → w'.Good C B

theorem Environment.refl (w : World) : Environment w w :=
  ⟨rfl, rfl, .refl _, fun _ h => h, le_rfl⟩

theorem Environment.trans {w w' w'' : World} (h : Environment w w') (h' : Environment w' w'') :
    Environment w w'' :=
  ⟨h'.disk.trans h.disk, h'.publication.trans h.publication, h.core.trans h'.core,
    fun key hkey => h'.subjects key (h.subjects key hkey), le_trans h.epoch h'.epoch⟩

theorem Guarantee.refl (w : World) : Guarantee C B w w := ⟨le_rfl, id⟩

theorem Good.of_core {s s' : Stores} (h : Good C B s) (hcore : SameCore s s')
    (hsubjects : ∀ key ∈ s.personalMemory, key ∈ s'.personalMemory) : Good C B s' :=
  h.of_refines ⟨fun key fact hf => by rwa [hcore.proofs key], hsubjects, hcore.actions.symm⟩

theorem World.Good.environment {w w' : World} (h : w.Good C B) (he : Environment w w') :
    w'.Good C B where
  live := h.live.of_core he.core he.subjects
  disk := he.disk ▸ h.disk
  ahead := by
    rw [he.disk, ← he.core.actions]
    exact h.ahead
  known known hk := (h.known known (he.publication ▸ hk)).trans he.core

/-! ### Preparation -/

theorem environment_setSubject {w : World} {key : String} {s : PersonalMemorySubject}
    (h : s.proofs = w.live.proofsAt key) : Environment w (w.setSubject key s) where
  disk := rfl
  publication := rfl
  core := by
    refine ⟨fun key' => ?_, rfl⟩
    show _ = (w.live.setSubject key s).proofsAt key'
    rw [proofsAt_setSubject]
    split_ifs with hk
    · rw [h, hk]
    · rfl
  subjects key' hk := Std.ExtTreeMap.mem_insert.mpr (.inr hk)
  epoch := le_rfl

theorem environment_turnOff {w : World} {key : String} {s : PersonalMemorySubject}
    (h : s.proofs = w.live.proofsAt key) :
    Environment w (w.turnOff key s).1 ∧
      (w.turnOff key s).1.live.exposure = w.live.exposure := by
  unfold World.turnOff
  dsimp only
  split
  · rename_i s' hs'
    have hadvance := PersonalMemorySubject.advance_eq_ok hs'
    subst hadvance
    exact ⟨environment_setSubject h, rfl⟩
  · exact ⟨environment_setSubject h, rfl⟩

theorem environment_expose {w w' : World} {cutoff : ℕ} (h : w.expose cutoff = .ok w') :
    Environment w w' ∧ w'.live.exposure.epoch = w.live.exposure.epoch + 1 := by
  simp only [World.expose, bind_eq_ok, orErr_eq_ok, checkedAdd_eq_some, pure_eq_ok] at h
  obtain ⟨epoch, ⟨rfl, -⟩, rfl⟩ := h
  exact ⟨⟨rfl, rfl, ⟨fun _ => rfl, rfl⟩, fun _ h => h, Nat.le_succ _⟩, rfl⟩

/-- The barrier, the denials and the table of requests are not looked at. -/
theorem Environment.raise {w w' : World} (h : Environment w w') (blocked : Bool)
    (denials : BTreeMap String RuntimeDenial) (pending : BTreeMap String String) :
    Environment w { w' with blocked := blocked, denials := denials, pending := pending } :=
  ⟨h.disk, h.publication, h.core, h.subjects, h.epoch⟩

theorem environment_settle (w : World) (r : Request) : Environment w (w.settle r) :=
  (Environment.refl w).raise w.blocked w.denials _

theorem environment_turnOffKnown (w : World) (key : String) :
    Environment w (w.turnOffKnown key).1 := by
  unfold World.turnOffKnown
  cases hs : w.live.personalMemory[key]? with
  | none => exact .refl w
  | some s => exact (environment_turnOff (proofsAt_of_some hs)).1

theorem environment_refuseFull (w : World) (r : Request) (now : ℕ) :
    Environment w (w.refuseFull C r now).2 ∧
      ∀ allowed, (w.refuseFull C r now).1 ≠ .queued allowed true := by
  have hblocked : Environment w { w with blocked := true } :=
    (Environment.refl w).raise true w.denials w.pending
  unfold World.refuseFull
  by_cases hoff : r.isOff = false
  · rw [if_pos hoff]
    exact ⟨.refl w, by simp⟩
  · rw [if_neg hoff]
    cases validateAction r.action now with
    | error e => exact ⟨.refl w, by simp⟩
    | ok u =>
      dsimp only
      split_ifs with hstamp
      · exact ⟨.refl w, by simp⟩
      · have hturned := hblocked.trans
          (environment_turnOffKnown { w with blocked := true } r.key)
        split
        · rename_i w' e hw'
          rw [hw'] at hturned
          exact ⟨hturned, by simp⟩
        · rename_i w' hw'
          rw [hw'] at hturned
          split
          · exact ⟨hturned, by simp⟩
          · rename_i w'' hw''
            exact ⟨hturned.trans (environment_expose hw'').1, by simp⟩

/-- A fence raises the exposure epoch. -/
theorem environment_fence (w : World) (r : Request) (now : ℕ) :
    Environment w (w.fence C r now).2 ∧
      ∀ allowed, (w.fence C r now).1 = .queued allowed true →
        (w.fence C r now).2.live.exposure.epoch = w.live.exposure.epoch + 1 := by
  have hblocked : Environment w { w with blocked := true } :=
    (Environment.refl w).raise true w.denials w.pending
  unfold World.fence
  split
  · exact ⟨.refl w, by simp⟩
  · dsimp only
    split_ifs with hfull
    · exact ⟨hblocked, by simp⟩
    · have hturned := @environment_turnOff { w with blocked := true } r.key
        (w.live.personalMemory.getD r.key default) rfl
      split
      · rename_i w' e hw'
        rw [hw'] at hturned
        exact ⟨hblocked.trans hturned.1, by simp⟩
      · rename_i w' hw'
        rw [hw'] at hturned
        split
        · exact ⟨hblocked.trans hturned.1, by simp⟩
        · rename_i w'' hw''
          obtain ⟨hexposed, hepoch⟩ := environment_expose hw''
          refine ⟨((hblocked.trans hturned.1).trans hexposed).raise _ _ _, fun _ _ => ?_⟩
          show w''.live.exposure.epoch = _
          rw [hepoch, hturned.2]

theorem environment_prepare (w : World) (r : Request) (now : ℕ) :
    Environment w (w.prepare C r now).2 ∧
      ∀ allowed, (w.prepare C r now).1 = .queued allowed true →
        (w.prepare C r now).2.live.exposure.epoch = w.live.exposure.epoch + 1 := by
  unfold World.prepare
  by_cases hid : r.requestId = "" ∨ 64 < r.requestId.utf8ByteSize
  · rw [if_pos hid]
    exact ⟨.refl w, by simp⟩
  · rw [if_neg hid]
    cases (w.outcome r).filter fun record => record.completed with
    | some record =>
      dsimp only
      split_ifs <;> exact ⟨.refl w, by simp⟩
    | none =>
      dsimp only
      cases w.pending[r.pendingKey]? with
      | some digest =>
        dsimp only
        split_ifs <;> exact ⟨.refl w, by simp⟩
      | none =>
        dsimp only
        split_ifs with hsize
        · obtain ⟨henv, hne⟩ := environment_refuseFull (C := C) w r now
          exact ⟨henv, fun allowed h => absurd h (hne allowed)⟩
        · unfold World.enqueue
          split_ifs with hconflict hoff
          · exact ⟨.refl w, by simp⟩
          · exact environment_fence w r now
          · exact ⟨(Environment.refl w).raise _ _ _, by simp⟩

/-! ### Assertions -/

/-- A state in which `live` was read has the same proofs and actions still. -/
def Snap (C : Codec) (B : String → String → String → Prop) (live : Stores) (w : World) : Prop :=
  w.Good C B ∧ SameCore live w.live

theorem stable_good : Stable Environment (World.Good C B) := fun _ _ hw he => hw.environment he

theorem stable_snap {live : Stores} : Stable Environment (Snap C B live) :=
  fun _ _ hw he => ⟨hw.1.environment he, hw.2.trans he.core⟩

/-- The file on which the actions of a candidate are. -/
def Snap.Written (C : Codec) (B : String → String → String → Prop) (live candidate : Stores)
    (w : World) : Prop := Snap C B live w ∧ w.disk.actions = candidate.actions

theorem stable_written {live candidate : Stores} :
    Stable Environment (Snap.Written C B live candidate) :=
  fun _ _ hw he => ⟨stable_snap _ _ hw.1 he, by rw [he.disk]; exact hw.2⟩

/-- What an assertion must allow for the marker to be written under it. -/
structure MarkerFree (C : Codec) (B : String → String → String → Prop) (P : World → Prop) : Prop where
  stable : Stable Environment P
  good : ∀ w, P w → w.Good C B
  marker : ∀ w m, P w → P { w with disk := { w.disk with marker := m } }

theorem World.Good.setMarker {w : World} (h : w.Good C B) (m : Option Marker) :
    World.Good C B { w with disk := { w.disk with marker := m } } :=
  ⟨h.live, h.disk, h.ahead, h.known⟩

theorem markerFree_good : MarkerFree C B (World.Good C B) :=
  ⟨stable_good, fun _ h => h, fun _ m h => h.setMarker m⟩

theorem markerFree_snap {live : Stores} : MarkerFree C B (Snap C B live) :=
  ⟨stable_snap, fun _ h => h.1, fun _ m h => ⟨h.1.setMarker m, h.2⟩⟩

theorem markerFree_written {live candidate : Stores} :
    MarkerFree C B (Snap.Written C B live candidate) :=
  ⟨stable_written, fun _ h => h.1.1, fun _ m h => ⟨⟨h.1.1.setMarker m, h.1.2⟩, h.2⟩⟩

/-- A thread that ends with `M`, or with an error, and keeps the invariant. -/
abbrev Keeps (C : Codec) (B : String → String → String → Prop) {α : Type} (P : World → Prop)
    (x : Transaction α) (M : α → World → Prop) : Prop :=
  Holds Environment (Guarantee C B) P x (Post M (World.Good C B))

/-! ### File operations -/

theorem keeps_pure {α : Type} {P : World → Prop} {M : α → World → Prop} {a : α}
    (hM : ∀ a, Stable Environment (M a)) (h : ∀ w, P w → M a w) : Keeps C B P (pure a) M := by
  intro w hw w' hR
  exact (hM a).star (h w hw) hR

theorem keeps_read {α : Type} {P : World → Prop} {M : α → World → Prop}
    {f : World → Except MemoryConsentError α} (hP : MarkerFree C B P)
    (hM : ∀ a, Stable Environment (M a)) (h : ∀ w a, P w → f w = .ok a → M a w) :
    Keeps C B P (.read f) M :=
  holds_read hP.stable hM stable_good Guarantee.refl h hP.good

theorem keeps_lift {α : Type} {P : World → Prop} {M : α → World → Prop}
    {r : Except MemoryConsentError α} (hP : MarkerFree C B P)
    (hM : ∀ a, Stable Environment (M a)) (h : ∀ a, r = .ok a → ∀ w, P w → M a w) :
    Keeps C B P (.lift r) M :=
  holds_lift hM stable_good h hP.good

/-- A check that is passed. -/
theorem keeps_check {P : World → Prop} {r : Except MemoryConsentError Unit}
    (hP : MarkerFree C B P) : Keeps C B P (.lift r) fun _ => P :=
  keeps_lift hP (fun _ => hP.stable) fun _ _ _ hw => hw

theorem keeps_publishMarker {P : World → Prop} (hP : MarkerFree C B P) (marker : Marker) :
    Keeps C B P (publishMarker C marker) fun _ => P := by
  unfold publishMarker
  refine (keeps_read (M := fun _ => P) hP (fun _ => hP.stable) fun _ _ hw _ => hw).bind fun next => ?_
  refine (holds_publish (N := P) hP.stable hP.stable stable_good Guarantee.refl (fun w hw => ?_)
    hP.good).bind fun _ => ?_
  · have hmarker := hP.marker w (some next) hw
    exact ⟨⟨le_rfl, fun hgood => hgood.setMarker _⟩, hmarker, hP.good _ hmarker⟩
  · exact keeps_read hP (fun _ => hP.stable) fun _ _ hw _ => hw

/-- The state after a candidate was written. -/
theorem World.Good.persist {w : World} {live candidate : Stores} (hw : Snap C B live w)
    (hgood : PersonalMemory.Good C B candidate) (hpre : live.actions <+: candidate.actions) :
    Snap.Written C B live candidate { w with disk := w.disk.persist candidate } := by
  refine ⟨⟨⟨hw.1.live, ?_, ?_, hw.1.known⟩, hw.2⟩, rfl⟩
  · exact hgood.of_refines (refines_of_eq rfl rfl)
  · show w.live.actions <+: candidate.actions
    rw [← hw.2.actions]
    exact hpre

theorem keeps_persistCanonical {live candidate : Stores} {guild user : String}
    (hgood : PersonalMemory.Good C B candidate) (hpre : live.actions <+: candidate.actions) :
    Keeps C B (Snap C B live) (persistCanonical C candidate guild user)
      fun _ => Snap.Written C B live candidate := by
  unfold persistCanonical
  have hsnap := @markerFree_snap C B live
  have hwritten := @markerFree_written C B live candidate
  refine (keeps_read (M := fun _ => Snap C B live) hsnap (fun _ => stable_snap)
    fun _ _ hw _ => hw).bind fun _ => ?_
  refine (holds_publish (N := Snap.Written C B live candidate) stable_snap stable_written stable_good
    Guarantee.refl (fun w hw => ?_) fun w hw => hw.1).bind fun _ => ?_
  · have hpersist := World.Good.persist hw hgood hpre
    exact ⟨⟨le_rfl, fun _ => hpersist.1.1⟩, hpersist, hpersist.1.1⟩
  · exact keeps_read hwritten (fun _ => stable_written) fun _ _ hw _ => hw

theorem keeps_qualifyProjection {live candidate : Stores} (stores : Stores) :
    Keeps C B (Snap.Written C B live candidate) (qualifyProjection stores)
      fun _ => Snap.Written C B live candidate := by
  unfold qualifyProjection
  refine (holds_publish (N := Snap.Written C B live candidate) stable_written stable_written
    stable_good Guarantee.refl (fun w hw => ?_) fun w hw => hw.1.1).bind fun _ => ?_
  · have hgood : ∀ w : World, w.Good C B → World.Good C B { w with
        disk := { w.disk with projection := MemoryBank.factRecords stores.memory } } :=
      fun w h => ⟨h.live, h.disk, h.ahead, h.known⟩
    exact ⟨⟨le_rfl, hgood w⟩, ⟨⟨hgood w hw.1.1, hw.1.2⟩, hw.2⟩, hgood w hw.1.1⟩
  · exact keeps_read markerFree_written (fun _ => stable_written) fun _ _ hw _ => hw

/-! ### Publication and installation -/

/-- What is handed on with a candidate. -/
structure Candidate (C : Codec) (B : String → String → String → Prop) (live candidate : Stores) :
    Prop where
  good : Good C B candidate
  ahead : live.actions <+: candidate.actions

theorem Candidate.of_refines {live s s' : Stores} (h : Candidate C B live s) (hr : Refines s s') :
    Candidate C B live s' := ⟨h.good.of_refines hr, hr.actions ▸ h.ahead⟩

theorem keeps_publishImage {live candidate : Stores} {r : Request}
    (hcandidate : Candidate C B live candidate) :
    Keeps C B (Snap C B live) (publishImage C live candidate r) fun next w =>
      (Candidate C B live next) ∧ Snap.Written C B live next w := by
  unfold publishImage
  refine (keeps_persistCanonical hcandidate.good hcandidate.ahead).bind fun base => ?_
  refine (holds_update (N := Snap.Written C B live candidate) stable_written stable_written
    stable_good Guarantee.refl (fun w w' hw hw' => ?_) fun w hw => hw.1.1).bind fun _ => ?_
  · cases hw'
    have hgood : World.Good C B { w with publication := some ⟨live, base⟩ } :=
      ⟨hw.1.1.live, hw.1.1.disk, hw.1.1.ahead, fun known hk => by
        cases hk
        exact hw.1.2⟩
    exact ⟨⟨le_rfl, fun _ => hgood⟩, ⟨hgood, hw.1.2⟩, hw.2⟩
  · refine keeps_pure (fun _ => stable_written.and_pure) fun w hw => ⟨?_, hw⟩
    exact hcandidate.of_refines (refines_of_eq rfl rfl)

theorem activate_refines {retirement : MarkerRetirement} {candidate next : Stores} {key : String}
    (h : retirement.activate candidate key = .ok next) : Refines candidate next := by
  cases retirement with
  | replay =>
    cases h
    exact .refl _
  | subject off on allowed =>
    simp only [MarkerRetirement.activate, bind_eq_ok, orErr_eq_ok, pure_eq_ok] at h
    obtain ⟨s, hs, rfl⟩ := h
    exact refines_change hs rfl

theorem keeps_retireMarker {P : World → Prop} (hP : MarkerFree C B P) (r : Request)
    (candidate : Stores) (marker : Marker) (retirement : MarkerRetirement) :
    Keeps C B P (retireMarker C r candidate marker retirement) fun _ => P := by
  cases retirement with
  | replay =>
    refine (keeps_check hP).bind fun _ => ?_
    split_ifs
    · exact keeps_pure (fun _ => hP.stable) fun _ hw => hw
    · exact keeps_publishMarker hP _
  | subject off on allowed =>
    refine (keeps_check hP).bind fun _ => ?_
    refine (keeps_read (M := fun _ => P) hP (fun _ => hP.stable) fun _ _ hw _ => hw).bind fun _ => ?_
    dsimp only
    split_ifs
    all_goals first
      | exact keeps_publishMarker hP _
      | exact keeps_pure (fun _ => hP.stable) fun _ hw => hw

theorem keeps_publishCandidate {r : Request} {live candidate : Stores} {marker : Marker}
    {retirement : MarkerRetirement} (hcandidate : Candidate C B live candidate) :
    Keeps C B (Snap C B live) (publishCandidate C r live candidate marker retirement)
      fun next w => Candidate C B live next.1 ∧ Snap.Written C B live next.1 w := by
  unfold publishCandidate
  refine (keeps_check markerFree_snap).bind fun _ => ?_
  refine (keeps_publishImage hcandidate).bind fun first => holds_pure fun hfirst => ?_
  refine (keeps_qualifyProjection first).bind fun _ => ?_
  refine (keeps_lift (M := fun next w => Candidate C B live next ∧ Snap C B live w) markerFree_written
    (fun _ => stable_snap.and_pure) fun next hnext w hw =>
      ⟨hfirst.of_refines (activate_refines hnext), hw.1⟩).bind fun active => holds_pure fun hactive => ?_
  refine (keeps_publishImage (hactive.of_refines (refines_complete active))).bind fun last =>
    holds_pure fun hlast => ?_
  refine (keeps_retireMarker markerFree_written r last marker retirement).bind fun m => ?_
  exact keeps_pure (fun _ => stable_written.and_pure) fun w hw => ⟨hlast, hw⟩

theorem keeps_install {live candidate : Stores} {clearBarrier : Bool}
    (hcandidate : Candidate C B live candidate) :
    Keeps C B (Snap.Written C B live candidate)
      (.update fun w => w.install candidate live clearBarrier) fun _ => World.Good C B := by
  refine holds_update stable_written stable_good stable_good Guarantee.refl (fun w w' hw hw' => ?_)
    fun w hw => hw.1.1
  simp only [World.install, bind_eq_ok, exists_unit, ensure_eq_ok, pure_eq_ok] at hw'
  obtain ⟨⟨-, -, hepoch, -⟩, rfl⟩ := hw'
  have hgood : World.Good C B { w with
      live := { candidate with memory := installFactRows w.live.memory candidate.memory }
      denials := w.denials.filter fun key denial => !decide (denial.Retired key candidate)
      publication := none
      blocked := if clearBarrier && (w.denials.filter fun key denial =>
        !decide (denial.Retired key candidate)).isEmpty then false else w.blocked } := by
    refine ⟨hcandidate.good.of_refines (refines_of_eq rfl rfl), hw.1.1.disk, ?_, fun _ h => by cases h⟩
    show candidate.actions <+: w.disk.actions
    rw [hw.2]
  exact ⟨⟨hepoch, fun _ => hgood⟩, hgood⟩

/-! ### Transactions -/

theorem keeps_publishReplay {r : Request} {live candidate : Stores} {marker : Marker}
    (hcandidate : Candidate C B live candidate) :
    Keeps C B (Snap C B live) (publishReplay C r live candidate marker) fun _ => World.Good C B := by
  unfold publishReplay
  exact (keeps_publishCandidate hcandidate).bind fun next => holds_pure fun hnext =>
    keeps_install hnext

theorem readmit_refines {r : Request} {s next : Stores} (h : r.readmit C s = .ok next) :
    Refines s next := by
  unfold Request.readmit at h
  split_ifs at h with hknown
  · cases h
    exact .refl _
  · simp only [bind_eq_ok, exists_unit, orErr_eq_ok, pure_eq_ok] at h
    obtain ⟨-, subject, hs, -, rfl⟩ := h
    exact refines_change hs rfl

/-- The state a replay goes on from is accounted for. -/
theorem repair_candidate {r : Request} {live disk next : Stores}
    {known : Option UninstalledPublication} (hlive : Good C B live) (hdisk : Good C B disk)
    (hpre : live.actions <+: disk.actions) (hknown : ∀ k ∈ known, SameCore k.base live)
    (h : r.repair C live disk known = .ok next) : Candidate C B live next := by
  cases known with
  | some known =>
    simp only [Request.repair, bind_eq_ok, exists_unit] at h
    obtain ⟨-, h⟩ := h
    obtain ⟨hgood, hactions, -⟩ := hlive.rebase hdisk (hknown known rfl) hpre h
    exact ⟨hgood, hactions ▸ hpre⟩
  | none =>
    simp only [Request.repair] at h
    split_ifs at h
    · simp only [bind_eq_ok, exists_unit, pure_eq_ok] at h
      obtain ⟨-, -, -, rfl⟩ := h
      exact ⟨hdisk, hpre⟩
    · cases h
      exact ⟨hdisk, hpre⟩

/-- The file that was loaded, and what holds of it. -/
structure Loaded (C : Codec) (B : String → String → String → Prop) (disk : Stores) (w : World) :
    Prop where
  good : w.Good C B
  actions : disk.actions = w.disk.actions

theorem markerFree_loaded {disk : Stores} : MarkerFree C B (Loaded C B disk) where
  stable _ _ hw he := ⟨hw.good.environment he, by rw [he.disk]; exact hw.actions⟩
  good _ h := h.good
  marker _ m h := ⟨h.good.setMarker m, h.actions⟩

/-- The state in memory is read, while the file is as it was loaded. -/
theorem snap_of_loaded {disk : Stores} {w : World} (hw : Loaded C B disk w) :
    (Good C B w.live ∧ w.live.actions <+: disk.actions) ∧ Snap C B w.live w :=
  ⟨⟨hw.good.live, hw.actions ▸ hw.good.ahead⟩, hw.good, .refl _⟩

theorem keeps_replay {r : Request} {disk : Stores} {marker : Marker} (hdisk : Good C B disk) :
    Keeps C B (Loaded C B disk) (replay C r disk marker) fun _ => World.Good C B := by
  have hloaded := @markerFree_loaded C B disk
  unfold replay
  refine (holds_update (N := Loaded C B disk) hloaded.stable hloaded.stable stable_good
    Guarantee.refl (fun w w' hw hw' => ?_) hloaded.good).bind fun _ => ?_
  · cases hw'
    have hgood : World.Good C B { w with blocked := true } :=
      ⟨hw.good.live, hw.good.disk, hw.good.ahead, hw.good.known⟩
    exact ⟨⟨le_rfl, fun _ => hgood⟩, hgood, hw.actions⟩
  refine (keeps_check hloaded).bind fun _ => ?_
  refine (keeps_read (M := fun live w => (Good C B live ∧ live.actions <+: disk.actions) ∧
    Snap C B live w) hloaded (fun _ => stable_snap.and_pure) fun w live hw hlive => ?_).bind
      fun live => holds_pure fun hlive => ?_
  · cases hlive
    exact snap_of_loaded hw
  have hsnap := @markerFree_snap C B live
  refine (keeps_read (M := fun _ => Snap C B live) hsnap (fun _ => stable_snap)
    fun _ _ hw _ => hw).bind fun _ => ?_
  refine (keeps_read (M := fun known w => (∀ k ∈ known, SameCore k.base live) ∧ Snap C B live w)
    hsnap (fun _ => stable_snap.and_pure) fun w known hw hknown => ?_).bind
      fun known => holds_pure fun hknown => ?_
  · cases hknown
    exact ⟨fun k hk => (hw.1.known k hk).trans hw.2.symm, hw⟩
  refine (keeps_lift (M := fun next w => Candidate C B live next ∧ Snap C B live w) hsnap
    (fun _ => stable_snap.and_pure) fun next hnext w hw =>
      ⟨repair_candidate hlive.1 hdisk hlive.2 hknown hnext, hw⟩).bind
        fun repaired => holds_pure fun hrepaired => ?_
  refine (keeps_lift (M := fun next w => Candidate C B live next.1 ∧ Snap C B live w) hsnap
    (fun _ => stable_snap.and_pure) fun next hnext w hw =>
      ⟨hrepaired.of_refines (refines_foldDenials hnext), hw⟩).bind
        fun folded => holds_pure fun hfolded => ?_
  obtain ⟨folded, changed⟩ := folded
  dsimp only
  split_ifs with haborted
  · refine (keeps_publishReplay hfolded).bind fun _ => ?_
    exact keeps_lift markerFree_good (fun _ => stable_good) fun _ _ _ hw => hw
  · refine (keeps_lift (M := fun next w => Candidate C B live next ∧ Snap C B live w) hsnap
      (fun _ => stable_snap.and_pure) fun next hnext w hw =>
        ⟨hfolded.of_refines (readmit_refines hnext), hw⟩).bind
          fun admitted => holds_pure fun hadmitted => ?_
    refine (keeps_lift (M := fun _ => Snap C B live) hsnap (fun _ => stable_snap)
      fun _ _ _ hw => hw).bind fun result => ?_
    refine (keeps_publishReplay hadmitted).bind fun _ => ?_
    exact keeps_pure (fun _ => stable_good) fun _ hw => hw

theorem self_of_validateAction {action : SelfAuthorizedFactAction} {now : ℕ}
    (h : validateAction action now = .ok ()) : action.proof.actor = action.proof.subject := by
  simp only [validateAction, SelfAuthorizedFactAction.new, bind_eq_ok, exists_unit, ensure_eq_ok,
    not_or, not_not] at h
  obtain ⟨-, ⟨hself, -⟩, -⟩ := h
  exact hself.1

theorem answer_refines {r : Request} {s next : Stores} {result : ConsentStatus}
    (h : r.answer C s = .ok (next, result)) : Refines s next := by
  simp only [Request.answer, bind_eq_ok, orErr_eq_ok, pure_eq_ok, Prod.mk.injEq] at h
  obtain ⟨subject, hsubject, record, -, rfl, -⟩ := h
  exact refines_change hsubject rfl

theorem keeps_refuseStale {P : World → Prop} (hP : MarkerFree C B P) {r : Request}
    {stores : Stores} {allowed : ConsentStamp} {marker : Marker} {clock : Clock}
    {M : Stores → World → Prop} (hM : ∀ s, Stable Environment (M s)) :
    Keeps C B P (refuseStale C r stores allowed marker clock) M := by
  have hfail : Keeps C B P (.lift (.error .stale)) M :=
    keeps_lift hP hM fun _ h => by cases h
  unfold refuseStale
  split_ifs
  · refine (keeps_lift (M := fun _ => P) hP (fun _ => hP.stable) fun _ _ _ hw => hw).bind fun m => ?_
    exact (keeps_publishMarker hP m).bind fun _ => hfail
  · exact hfail

theorem keeps_rebaseLive {r : Request} {live disk : Stores} {allowed : ConsentStamp}
    {marker : Marker} {clock : Clock} (hlive : Good C B live) (hdisk : Good C B disk)
    (hpre : live.actions <+: disk.actions) :
    Keeps C B (Snap C B live) (rebaseLive C r live disk allowed marker clock)
      fun base w => Candidate C B live base ∧ Snap C B live w := by
  have hsnap := @markerFree_snap C B live
  have hM : ∀ base : Stores, Stable Environment fun w => Candidate C B live base ∧ Snap C B live w :=
    fun _ => stable_snap.and_pure
  unfold rebaseLive
  by_cases hbase : disk.canonicalBase = live.canonicalBase
  · rw [if_pos hbase]
    exact keeps_pure hM fun w hw => ⟨⟨hlive, List.prefix_rfl⟩, hw⟩
  · rw [if_neg hbase]
    refine (keeps_read (M := fun known w => (∀ k ∈ known, SameCore k.base live) ∧ Snap C B live w)
      hsnap (fun _ => stable_snap.and_pure) fun w known hw hknown => ?_).bind
        fun known => holds_pure fun hknown => ?_
    · cases hknown
      exact ⟨fun k hk => (hw.1.known k hk).trans hw.2.symm, hw⟩
    · cases hk : known.filter fun known => decide (known.Matches live disk) with
      | none => exact keeps_refuseStale hsnap hM
      | some k =>
        dsimp only
        split_ifs
        · refine keeps_lift hsnap hM fun next hnext w hw => ⟨?_, hw⟩
          have hmem := hknown k (Option.filter_eq_some_iff.mp hk).1
          obtain ⟨hgood, hactions, -⟩ := hlive.rebase hdisk hmem hpre hnext
          exact ⟨hgood, hactions ▸ hpre⟩
        · exact keeps_refuseStale hsnap hM

theorem keeps_checkBarrier {P : World → Prop} (hP : MarkerFree C B P) {r : Request}
    {marker : Marker} : Keeps C B P (checkBarrier r marker) fun _ => P := by
  unfold checkBarrier
  split_ifs
  · exact keeps_pure (fun _ => hP.stable) fun _ hw => hw
  · refine (keeps_check hP).bind fun _ => ?_
    exact keeps_read hP (fun _ => hP.stable) fun _ _ hw _ => hw

theorem keeps_announce {r : Request} {live candidate : Stores} {marker : Marker}
    {result : ConsentStatus} {withdrawal : Withdrawal} (hcandidate : Candidate C B live candidate) :
    Keeps C B (Snap C B live) (announce C r candidate marker result withdrawal)
      fun next w => Candidate C B live next.1 ∧ Snap C B live w := by
  have hsnap := @markerFree_snap C B live
  unfold announce
  split_ifs
  · refine (keeps_lift (M := fun _ => Snap C B live) hsnap (fun _ => stable_snap)
      fun _ _ _ hw => hw).bind fun m => ?_
    refine (keeps_publishMarker hsnap m).bind fun m => ?_
    refine (keeps_lift (M := fun next w => Candidate C B live next.1 ∧ Snap C B live w) hsnap
      (fun _ => stable_snap.and_pure) fun next hnext w hw =>
        ⟨hcandidate.of_refines (refines_foldDenials hnext), hw⟩).bind
          fun folded => holds_pure fun hfolded => ?_
    refine (keeps_lift (M := fun next w => Candidate C B live next.1 ∧ Snap C B live w) hsnap
      (fun _ => stable_snap.and_pure) fun next hnext w hw =>
        ⟨hfolded.of_refines (answer_refines hnext), hw⟩).bind
          fun answered => holds_pure fun hanswered => ?_
    exact keeps_pure (fun _ => stable_snap.and_pure) fun w hw => ⟨hanswered, hw⟩
  · refine (keeps_check hsnap).bind fun _ => ?_
    refine (keeps_publishMarker hsnap _).bind fun m => ?_
    refine (keeps_lift (M := fun s w => candidate.personalMemory[r.key]? = some s ∧ Snap C B live w)
      hsnap (fun _ => stable_snap.and_pure) fun s hs w hw => ⟨orErr_eq_ok.mp hs, hw⟩).bind
        fun s => holds_pure fun hs => ?_
    exact keeps_pure (fun _ => stable_snap.and_pure) fun w hw =>
      ⟨hcandidate.of_refines (refines_change hs rfl), hw⟩
  · exact keeps_pure (fun _ => stable_snap.and_pure) fun w hw => ⟨hcandidate, hw⟩

theorem keeps_publishInstall {r : Request} {live candidate : Stores} {marker : Marker}
    {allowed : ConsentStamp} (hcandidate : Candidate C B live candidate) :
    Keeps C B (Snap C B live) (publishInstall C r live candidate marker allowed)
      fun _ => World.Good C B := by
  unfold publishInstall
  refine (keeps_publishCandidate hcandidate).bind fun next => holds_pure fun hnext => ?_
  refine (keeps_install hnext).bind fun _ => ?_
  exact keeps_pure (fun _ => stable_good) fun _ hw => hw

/-- Only the barrier is changed. -/
theorem keeps_barrier {f : World → World}
    (hf : ∀ w, f w = w ∨ ∃ blocked, f w = { w with blocked := blocked }) :
    Keeps C B (World.Good C B) (.update fun w => .ok (f w)) fun _ => World.Good C B := by
  refine holds_update stable_good stable_good stable_good Guarantee.refl (fun w w' hw hw' => ?_)
    fun _ h => h
  cases hw'
  rcases hf w with heq | ⟨blocked, heq⟩
  · rw [heq]
    exact ⟨Guarantee.refl w, hw⟩
  · rw [heq]
    have hgood : World.Good C B { w with blocked := blocked } :=
      ⟨hw.live, hw.disk, hw.ahead, hw.known⟩
    exact ⟨⟨le_rfl, fun _ => hgood⟩, hgood⟩

theorem keeps_denyFailed {r : Request} {withdrawal : Withdrawal} {e : MemoryConsentError} :
    Keeps C B (World.Good C B) (denyFailed C r withdrawal e) fun _ => World.Good C B := by
  have hgood := @markerFree_good C B
  have hfail : Keeps C B (World.Good C B) (.lift (.error e) : Transaction ConsentStatus)
      fun _ => World.Good C B := keeps_lift hgood (fun _ => stable_good) fun _ h => by cases h
  unfold denyFailed
  refine (keeps_barrier (f := fun w => { w with blocked := true })
    fun w => .inr ⟨true, rfl⟩).bind fun _ => ?_
  split_ifs
  · refine (keeps_read (M := fun _ => World.Good C B) hgood (fun _ => stable_good)
      fun _ _ hw _ => hw).bind fun fresh => ?_
    refine (keeps_lift (M := fun _ => World.Good C B) hgood (fun _ => stable_good)
      fun _ _ _ hw => hw).bind fun fresh => ?_
    exact (keeps_publishMarker hgood fresh).bind fun _ => hfail
  · exact hfail

theorem keeps_lowerBarrier {candidate : Stores} {marker : Marker} :
    Keeps C B (World.Good C B) (lowerBarrier candidate marker) fun _ => World.Good C B := by
  unfold lowerBarrier
  split_ifs
  · refine keeps_barrier fun w => ?_
    split_ifs
    · exact .inr ⟨false, rfl⟩
    · exact .inl rfl
  · exact keeps_pure (fun _ => stable_good) fun _ hw => hw

theorem candidate_candidate {r : Request} {live base next : Stores} {clock : Clock}
    {result : ConsentStatus} (hself : r.action.proof.actor = r.action.proof.subject)
    (hbase : Candidate C B live base) (h : r.candidate C base clock = .ok (next, result)) :
    Candidate C B live next := by
  simp only [Request.candidate, bind_eq_ok, exists_unit, orErr_eq_ok, pure_eq_ok,
    Prod.mk.injEq] at h
  obtain ⟨applied, happlied, subject, hsubject, advanced, hadvanced, exposure, -, -, rfl, -⟩ := h
  have hadvanced := PersonalMemorySubject.advance_eq_ok hadvanced
  subst hadvanced
  have hopen := hbase.of_refines (refines_openSubject base r.key)
  obtain ⟨hgood, hactions⟩ := hopen.good.applyMutation hself happlied
  have happlied : Candidate C B live applied :=
    ⟨hgood, hactions ▸ hopen.ahead.trans (List.prefix_append _ _)⟩
  refine happlied.of_refines ?_
  have hfirst := @refines_change _ _ _ { subject with
    schema := 1, policyVersion := policyVersion, revision := subject.revision + 1,
    consentEpoch := subject.consentEpoch + 1 } hsubject rfl
  have hexposure : Refines (applied.setSubject r.key { subject with
      schema := 1, policyVersion := policyVersion, revision := subject.revision + 1,
      consentEpoch := subject.consentEpoch + 1 })
    { applied.setSubject r.key { subject with
      schema := 1, policyVersion := policyVersion, revision := subject.revision + 1,
      consentEpoch := subject.consentEpoch + 1 } with exposure := exposure } :=
    refines_of_eq rfl rfl
  refine (hfirst.trans hexposure).trans (refines_change Std.ExtTreeMap.getElem?_insert_self rfl)

/-- **A first transaction keeps the account of the proofs.** -/
theorem keeps_commit {r : Request} {allowed : ConsentStamp} {clock : Clock} {disk : Stores}
    {marker : Marker} (hdisk : Good C B disk) :
    Keeps C B (Loaded C B disk) (commit C r allowed clock disk marker)
      fun _ => World.Good C B := by
  have hloaded := @markerFree_loaded C B disk
  unfold commit
  refine (keeps_lift (M := fun _ w => r.action.proof.actor = r.action.proof.subject ∧
    Loaded C B disk w) hloaded (fun _ => hloaded.stable.and_pure) fun _ hok w hw =>
      ⟨self_of_validateAction hok, hw⟩).bind fun _ => holds_pure fun hself => ?_
  refine (keeps_read (M := fun live w => (Good C B live ∧ live.actions <+: disk.actions) ∧
    Snap C B live w) hloaded (fun _ => stable_snap.and_pure) fun w live hw hlive => ?_).bind
      fun live => holds_pure fun hlive => ?_
  · simp only [bind_eq_ok, exists_unit, pure_eq_ok] at hlive
    obtain ⟨-, rfl⟩ := hlive
    exact snap_of_loaded hw
  have hsnap := @markerFree_snap C B live
  refine (keeps_rebaseLive hlive.1 hdisk hlive.2).bind fun base => holds_pure fun hbase => ?_
  refine (keeps_check hsnap).bind fun _ => (keeps_check hsnap).bind fun _ => ?_
  refine (keeps_checkBarrier hsnap).bind fun _ => ?_
  refine (keeps_lift (M := fun next w => Candidate C B live next.1 ∧ Snap C B live w) hsnap
    (fun _ => stable_snap.and_pure) fun next hnext w hw =>
      ⟨candidate_candidate hself hbase hnext, hw⟩).bind
        fun first => holds_pure fun hfirst => ?_
  obtain ⟨first, result⟩ := first
  refine (keeps_lift (M := fun _ => Snap C B live) hsnap (fun _ => stable_snap)
    fun _ _ _ hw => hw).bind fun withdrawal => ?_
  refine (keeps_announce hfirst).bind fun announced => holds_pure fun hannounced => ?_
  obtain ⟨announced, marker, result⟩ := announced
  refine (keeps_check hsnap).bind fun _ => ?_
  have hpublish : Holds Environment (Guarantee C B) (Snap C B live)
      (Thread.attempt (publishInstall C r live announced marker allowed))
      (Post (Post (fun _ => World.Good C B) (World.Good C B)) (World.Good C B)) :=
    (keeps_publishInstall hannounced).attempt.weaken (fun _ h => h) fun outcome w h => by
      cases outcome with
      | ok a => exact h
      | error e => exact h.elim
  refine Holds.bind hpublish fun outcome => ?_
  cases outcome with
  | error e => exact keeps_denyFailed
  | ok installed =>
    refine keeps_lowerBarrier.bind fun _ => ?_
    exact keeps_pure (fun _ => stable_good) fun _ hw => hw

theorem keeps_transaction {r : Request} {allowed : ConsentStamp} {clock : Clock} :
    Keeps C B (World.Good C B) (transaction C r allowed clock) fun _ => World.Good C B := by
  have hgood := @markerFree_good C B
  unfold transaction
  refine (keeps_read (M := fun _ => World.Good C B) hgood (fun _ => stable_good)
    fun _ _ hw _ => hw).bind fun marker => ?_
  refine (keeps_read (M := fun disk w => Good C B disk ∧ Loaded C B disk w) hgood
    (fun _ => markerFree_loaded.stable.and_pure) fun w disk hw hdisk => ?_).bind
      fun disk => holds_pure fun hdisk => ?_
  · obtain ⟨hpayload, -, hactions⟩ := load_eq_ok (mapError_ok_iff.mp hdisk)
    have hmemory : disk.personalMemory = w.disk.stores.personalMemory := by
      show disk.toPayload.personalMemory = w.disk.payload.personalMemory
      rw [hpayload]
    exact ⟨hw.disk.of_refines (refines_of_eq hmemory hactions), hw, hactions⟩
  · split_ifs
    · exact keeps_replay hdisk
    · exact keeps_commit hdisk

/-! ### Runs -/

/-- The process is accounted for, and so is the transaction that runs. -/
structure Process.Good (C : Codec) (B : String → String → String → Prop) (p : Process) : Prop where
  world : p.world.Good C B
  running : ∀ r x, p.running = some (r, x) → Safe Environment (Guarantee C B)
    (Post (fun _ => World.Good C B) (World.Good C B)) x p.world

/-- The exposure epoch in memory. -/
def Process.epoch (p : Process) : ℕ := p.world.live.exposure.epoch

/-- The environment of the transaction acts. -/
theorem Process.Good.environment {p p' : Process} (hp : p.Good C B)
    (he : Environment p.world p'.world) (hrunning : p'.running = p.running) :
    p'.Good C B ∧ p.epoch ≤ p'.epoch :=
  ⟨⟨hp.world.environment he, fun r x hx => (hp.running r x (hrunning ▸ hx)).environment he⟩, he.epoch⟩

theorem Process.Good.step {p : Process} (hp : p.Good C B) (op : Op) :
    (p.step C op).2.Good C B ∧ p.epoch ≤ (p.step C op).2.epoch := by
  cases op with
  | request r now => exact hp.environment (environment_prepare p.world r now).1 rfl
  | start i clock =>
    unfold Process.step
    dsimp only
    split
    · refine ⟨⟨hp.world, fun r' x hx => ?_⟩, le_rfl⟩
      cases hx
      exact keeps_transaction p.world hp.world
    · exact ⟨hp, le_rfl⟩
  | drop i =>
    unfold Process.step
    dsimp only
    split
    · rename_i r _ _
      have henv : Environment p.world (p.world.settle r) := environment_settle p.world r
      exact hp.environment henv rfl
    · exact ⟨hp, le_rfl⟩
  | tick io =>
    unfold Process.step
    dsimp only
    split
    · exact ⟨hp, le_rfl⟩
    · rename_i r result hrun
      have henv := environment_settle p.world r
      exact ⟨⟨hp.world.environment henv, fun r' x hx => by cases hx⟩, henv.epoch⟩
    · rename_i r next write hrun
      obtain ⟨hguarantee, hsafe⟩ := (hp.running r _ hrun).next io
      refine ⟨⟨hguarantee.good hp.world, fun r' x hx => ?_⟩, hguarantee.epoch⟩
      cases hx
      exact hsafe

theorem Process.Good.run {p₀ p : Process} {h : List (Event Process Op Output)} (h₀ : p₀.Good C B)
    (hrun : Run (Process.step C) p₀ h p) : p.Good C B ∧
      ∀ e ∈ h, e.before.epoch ≤ e.after.epoch ∧ e.after.epoch ≤ p.epoch := by
  induction hrun with
  | nil => exact ⟨h₀, fun e he => (List.not_mem_nil he).elim⟩
  | cons op hrun ih =>
    obtain ⟨hgood, hevents⟩ := ih
    obtain ⟨hnext, hepoch⟩ := hgood.step op
    refine ⟨hnext, fun e he => ?_⟩
    rcases List.mem_cons.mp he with rfl | he
    · exact ⟨hepoch, le_rfl⟩
    · exact ⟨(hevents e he).1, le_trans (hevents e he).2 hepoch⟩

/-- A process at its start: the state that was loaded, and the files. -/
def Process.boot (live : Payload) (base : Option String) (blocked : Bool) (file : Option Payload)
    (marker : Option Marker) (projection : List MemoryFact) : Process :=
  ⟨⟨{ live with canonicalBase := base, actions := [] }, blocked, none, ∅, ∅,
    ⟨file, [], marker, projection⟩⟩, [], none⟩

/-- The fact was proved when the process started. -/
def ProvedAtBoot (C : Codec) (live : Payload) (file : Option Payload) (guild user text : String) :
    Prop :=
  C.factKey guild user text ∈ live.proofsAt (subjectKey guild user) ∨
    C.factKey guild user text ∈ (file.getD default).proofsAt (subjectKey guild user)

theorem good_boot (live : Payload) (base : Option String) (blocked : Bool) (file : Option Payload)
    (marker : Option Marker) (projection : List MemoryFact) :
    (Process.boot live base blocked file marker projection).Good C (ProvedAtBoot C live file) where
  world :=
    { live := ⟨fun _ _ _ _ h => .inl h, fun a ha => (List.not_mem_nil ha).elim⟩
      disk := ⟨fun _ _ _ _ h => .inr h, fun a ha => (List.not_mem_nil ha).elim⟩
      ahead := List.prefix_rfl
      known := fun _ h => by cases h }
  running _ _ h := by cases h

theorem validates_epoch {w : World} {permits : MemoryUsePermitSet}
    (h : permits.exposureEpoch ≠ w.live.exposure.epoch) : w.validates permits = false := by
  simp [World.validates, MemoryUsePermitSet.validate, h]

theorem permits_epoch (w : World) (guild user : String) :
    (w.permits guild user).exposureEpoch = w.live.exposure.epoch := by
  unfold World.permits
  split_ifs <;> rfl

/-- An Off that is answered raises the epoch. -/
theorem epoch_lt_of_raised {h : List (Event Process Op Output)} {p₀ p : Process}
    (hrun : Run (Process.step C) p₀ h p) {e : Event Process Op Output} (he : e ∈ h)
    (hraised : (∃ r now allowed, e.op = .request r now ∧ e.out = .prepared (.queued allowed true)) ∨
      e.before.epoch < e.after.epoch) : e.before.epoch < e.after.epoch := by
  rcases hraised with ⟨r, now, allowed, hop, hout⟩ | hraised
  · have hevent := hrun.event_eq he
    rw [hop] at hevent
    rw [hevent] at hout ⊢
    have hprepared : (e.before.world.prepare C r now).1 = .queued allowed true := by
      simpa [event, Process.step] using hout
    have hfence := (environment_prepare e.before.world r now).2 allowed hprepared
    show e.before.epoch < (e.before.world.prepare C r now).2.live.exposure.epoch
    rw [hfence]
    exact Nat.lt_succ_self _
  · exact hraised

/-- A fact that is used is stored, the choice of its subject is On, and it is proved. -/
theorem proved_of_usedFacts {w : World} {guild user text : String}
    (h : text ∈ w.usedFacts C guild user) :
    text ∈ MemoryBank.facts w.live.memory guild user ∧
    (∃ s, w.live.personalMemory[subjectKey guild user]? = some s ∧ s.choice = .on ∧
      s.activationPending = false) ∧
    C.factKey guild user text ∈ w.live.proofsAt (subjectKey guild user) := by
  unfold World.usedFacts at h
  rw [List.mem_filter, Bool.and_eq_true] at h
  obtain ⟨hstored, -, heligible⟩ := h
  refine ⟨hstored, ?_⟩
  cases hs : w.live.personalMemory[subjectKey guild user]? with
  | none =>
    rw [hs] at heligible
    cases heligible
  | some s =>
    rw [hs] at heligible
    simp only [PersonalMemorySubject.eligible, Bool.and_eq_true, decide_eq_true_eq] at heligible
    obtain ⟨⟨hidle, -, -, hon, -⟩, hproof⟩ := heligible
    refine ⟨⟨s, rfl, hon, hidle⟩, ?_⟩
    rw [← proofsAt_of_some hs, mem_iff]
    cases hp : s.proofs[C.factKey guild user text]? with
    | none =>
      rw [hp] at hproof
      cases hproof
    | some proof => exact ⟨proof, rfl⟩

/-- **Permits.** Along every run the exposure epoch in memory never falls; no permit minted before an
Off was admitted validates after it; and a fact is put under a permit only while it is stored for the
member, the choice is On with no activation pending, and the last action of the member on the exact
text was to remember it, to correct another to it or to confirm it, unless there was none and the fact
was proved when the process started. Only the last part looks at what a digest stands for, and only at
the digests of the fact itself and of the facts that the actions of the run were on. -/
theorem permits_along_run {live : Payload} {base : Option String} {blocked : Bool}
    {file : Option Payload} {marker : Option Marker} {projection : List MemoryFact} {p : Process}
    {h : List (Event Process Op Output)}
    (hrun : Run (Process.step C) (Process.boot live base blocked file marker projection) h p) :
    (∀ e ∈ h, e.before.epoch ≤ e.after.epoch ∧ e.after.epoch ≤ p.epoch) ∧
    (∀ (h₁ h₂ : List (Event Process Op Output)) (e : Event Process Op Output),
      h = h₁ ++ e :: h₂ →
      (∃ r now allowed, e.op = .request r now ∧ e.out = .prepared (.queued allowed true)) ∨
        e.before.epoch < e.after.epoch →
      (∀ permits : MemoryUsePermitSet, permits.exposureEpoch ≤ e.before.epoch →
        p.world.validates permits = false) ∧
      ∀ e' ∈ e :: h₂, ∀ guild user, p.world.validates (e'.before.world.permits guild user) = false) ∧
    ∀ guild user text, text ∈ p.world.usedFacts C guild user →
      text ∈ MemoryBank.facts p.world.live.memory guild user ∧
      (∃ s, p.world.live.personalMemory[subjectKey guild user]? = some s ∧ s.choice = .on ∧
        s.activationPending = false) ∧
      (Set.InjOn (fun f => C.factKey f.1 f.2.1 f.2.2)
          (factsConcerned p.world.live.actions guild user text) →
        Accounted (ProvedAtBoot C live file) p.world.live.actions guild user text) := by
  have hboot := good_boot (C := C) live base blocked file marker projection
  obtain ⟨hgood, hepochs⟩ := hboot.run hrun
  refine ⟨hepochs, ?_, ?_⟩
  · intro h₁ h₂ e heq hraised
    subst heq
    have hmem : e ∈ h₁ ++ e :: h₂ := List.mem_append_right _ List.mem_cons_self
    have hlater : e.before.epoch < p.epoch :=
      lt_of_lt_of_le (epoch_lt_of_raised hrun hmem hraised) (hepochs e hmem).2
    have hvoid : ∀ permits : MemoryUsePermitSet, permits.exposureEpoch ≤ e.before.epoch →
        p.world.validates permits = false := fun permits hle =>
      validates_epoch (ne_of_lt (lt_of_le_of_lt hle hlater))
    refine ⟨hvoid, fun e' he' guild user => hvoid _ ?_⟩
    rw [permits_epoch]
    rcases List.mem_cons.mp he' with rfl | he'
    · exact le_rfl
    · obtain ⟨-, hearlier⟩ := hboot.run hrun.earlier
      exact le_trans (hearlier e' he').1 (hearlier e' he').2
  · intro guild user text htext
    obtain ⟨hstored, hon, hproved⟩ := proved_of_usedFacts htext
    exact ⟨hstored, hon, fun hkeys => hgood.world.live.accounted guild user text hkeys hproved⟩

/-! ### A fact that is used -/

/-- `fact_key` of the fact. -/
def teaKey : String := "d3adb07408c71f8fe62756626db3122418bb8e2794c2c991264a17a43cb924df"

/-- `request_digest` of the request to remember. -/
def teaRememberDigest : String := "7cf75a37a495c55c93abf53bc599afb7ae8d1de3195f7933bec298116d7e6438"

/-- `request_digest` of the request to turn the use On. -/
def teaOnDigest : String := "425b59bb3cf23b10f0a73b8adbc3e66235ff979f41784201c18435356aed851e"

/-- The digests and sizes of what the run writes, in `/srv/abbey`, where what the canonical file holds
beside the facts and the consent is as in a new one. -/
def teaCodec : Codec where
  factKey guild user text := if guild = "g" ∧ user = "u" ∧ text = "tea" then teaKey else ""
  request a _ := if a.proof.at_ = 5 then teaRememberDigest else teaOnDigest
  image p :=
    match p.exposure.epoch, decide p.Completed with
    | 1, false => "4cdeaf0018f89353619f3a3d1411d4f3c7d0535711c9c6680ea068cd98d5fb6a"
    | 1, true => "b6ce7e20c72423a2241a670e2b5a458ce484e52d3640e3b690774ce49d2cccd0"
    | _, false => "4888e7c6577191ccfef39e3e764b56d9f5c300d19bf0293194e6474075971212"
    | _, true => "a1c5c9fe644796bee73ee6897c42a00b346b16fb147ba38d04a1949d4148a116"
  checksum m :=
    if m.revision = 1 then "66d95075fe7be05fd458d181f5cafe0bb4c48252497941aea192a54702ac54ab"
    else "15f3fdc9b0861598e14447efbeed522014a6da70ef3f2df58284b4e784ad2762"
  identity := "995e4791c93d075812dd67a625c623206eec4a455cf5b77dfec9d3ccb945e180"
  initialExposure := "ee3ad531cbcd879be445cb4407390fb88e1cdb6360cb5e0a5fc48209c2a8e7aa"
  metadataSize _ exposure := if exposure.epoch = 0 then 70 else if exposure.epoch = 1 then 911 else 1282
  markerSize m := if m.revision = 1 then 431 else 221

def teaRemember : Request :=
  ⟨⟨⟨"u", "u", "g", "first", "discord", 5, 1⟩, ⟨0, 0, 0⟩⟩, .remember "tea" none, "first"⟩

def teaOn : Request :=
  ⟨⟨⟨"u", "u", "g", "second", "discord", 6, 1⟩, ⟨1, 1, 1⟩⟩, .choice .on, "second"⟩

/-- The member has a fact remembered and turns its use On. -/
def teaOps : List Op :=
  [.request teaRemember 10, .start 0 ⟨10, 10, 10, 10⟩] ++ List.replicate 40 (.tick .done) ++
    [.request teaOn 20, .start 0 ⟨20, 20, 20, 20⟩] ++ List.replicate 60 (.tick .done)

def teaStart : Process := .boot default none false none none []

def teaProcess : Process := (play (Process.step teaCodec) teaStart teaOps).2

theorem run_tea : ∃ h, Run (Process.step teaCodec) teaStart h teaProcess :=
  ⟨_, run_play teaStart teaOps⟩

theorem teaProcess_actions : teaProcess.world.live.actions =
    [⟨teaRemember.action.proof, .remember "tea" none⟩, ⟨teaOn.action.proof, .choice .on⟩] := by
  decide +kernel

/-- The run is about one fact, so no two facts can share a key in it. -/
theorem factsConcerned_tea {actions : List MemberAction}
    (h : actions = [⟨teaRemember.action.proof, .remember "tea" none⟩,
      ⟨teaOn.action.proof, .choice .on⟩]) :
    ∀ f ∈ factsConcerned actions "g" "u" "tea", f = ("g", "u", "tea") := by
  have hnormal : normalizeFactText "tea" = "tea" := by decide +kernel
  rintro ⟨guild, user, text⟩ (hf | ⟨a, ha, hguild, huser, heffect⟩)
  · exact hf
  · rw [h, List.mem_pair] at ha
    rcases ha with rfl | rfl
    · have htext : "tea" = text := by
        by_contra hne
        simp [Mutation.effect, hnormal, hne] at heffect
      exact Prod.ext hguild.symm (Prod.ext huser.symm htext.symm)
    · cases heffect

theorem tea_permitted : "tea" ∈ teaProcess.world.usedFacts teaCodec "g" "u" ∧
    Accounted (ProvedAtBoot teaCodec default none) teaProcess.world.live.actions "g" "u" "tea" := by
  have hused : "tea" ∈ teaProcess.world.usedFacts teaCodec "g" "u" := by decide +kernel
  have hfacts := factsConcerned_tea teaProcess_actions
  obtain ⟨h, hrun⟩ := run_tea
  refine ⟨hused, ?_⟩
  -- Left as it is, the process would be evaluated to match the run.
  generalize teaProcess = p at hused hfacts hrun ⊢
  exact ((permits_along_run hrun).2.2 "g" "u" "tea" hused).2.2 fun f hf f' hf' _ =>
    (hfacts f hf).trans (hfacts f' hf').symm

end AbbeyBot.PersonalMemory

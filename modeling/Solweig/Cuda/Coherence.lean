import Solweig.Cuda.Residency

/-!
# Device coherence

What a bind leaves on the device. The mirror of an array that was passed as it is reads the memory
of the caller, so the comparison sees the writes that came after the upload.
-/

namespace Solweig.Cuda

open Solweig.Lib

/-! ## Chunks cover the buffer once -/

section Chunks

variable {chunkRows : Nat} {shape : List Nat} {dtype : Dtype}

theorem within_rows {rows rowBytes k j : Nat} :
    Within (k * chunkRows * rowBytes, min (k * chunkRows + chunkRows) rows * rowBytes) j ↔
      j < rows * rowBytes ∧ k * chunkRows * rowBytes ≤ j ∧ j < (k + 1) * chunkRows * rowBytes := by
  unfold Within
  have hnext : (k + 1) * chunkRows = k * chunkRows + chunkRows := by rw [Nat.succ_mul]
  simp only [hnext, ← Nat.mul_min_mul_right, Nat.lt_min]
  omega

theorem chunks_rows {rows axis : Nat} {axes : List Nat} (c : Nat × Nat) :
    c ∈ chunks chunkRows (rows :: axis :: axes) dtype ↔
      ∃ k < (rows + chunkRows - 1) / chunkRows, (k * chunkRows * ((axis :: axes).prod * dtype.itemSize),
        min (k * chunkRows + chunkRows) rows * ((axis :: axes).prod * dtype.itemSize)) = c := by
  unfold chunks
  simp only [List.mem_map, List.mem_range]

theorem nbytes_rows (rows axis : Nat) (axes : List Nat) :
    nbytes (rows :: axis :: axes) dtype = rows * ((axis :: axes).prod * dtype.itemSize) := by
  unfold nbytes
  rw [List.prod_cons, Nat.mul_assoc]

theorem chunks_within {c : Nat × Nat} (hc : c ∈ chunks chunkRows shape dtype) {j : Nat}
    (hj : Within c j) : j < nbytes shape dtype := by
  match shape with
  | [] | [_] =>
    obtain rfl := List.mem_singleton.mp hc
    exact hj.2
  | rows :: axis :: axes =>
    obtain ⟨k, -, rfl⟩ := (chunks_rows c).mp hc
    rw [nbytes_rows]
    exact (within_rows.mp hj).1

theorem chunks_cover (hpos : 0 < chunkRows) {j : Nat} (hj : j < nbytes shape dtype) :
    ∃ c ∈ chunks chunkRows shape dtype, Within c j := by
  match shape with
  | [] | [_] => exact ⟨_, List.mem_singleton_self _, Nat.zero_le j, hj⟩
  | rows :: axis :: axes =>
    rw [nbytes_rows] at hj
    generalize hbytes : (axis :: axes).prod * dtype.itemSize = rowBytes at hj
    have hrow : 0 < rowBytes := Nat.pos_of_lt_mul_left hj
    have hsize : 0 < chunkRows * rowBytes := Nat.mul_pos hpos hrow
    have hlow : j / (chunkRows * rowBytes) * chunkRows * rowBytes ≤ j := by
      rw [Nat.mul_assoc]
      exact Nat.div_mul_le_self j _
    have hhigh : j < (j / (chunkRows * rowBytes) + 1) * chunkRows * rowBytes := by
      rw [Nat.mul_assoc, Nat.mul_comm]
      exact Nat.lt_mul_div_succ j hsize
    refine ⟨_, (chunks_rows _).mpr ⟨j / (chunkRows * rowBytes), ?_, rfl⟩, ?_⟩
    · -- the first row of the chunk is a row
      have hfirst : j / (chunkRows * rowBytes) * chunkRows < rows := by
        apply Nat.lt_of_mul_lt_mul_right (a := rowBytes)
        omega
      rw [Nat.lt_div_iff_mul_lt hpos]
      omega
    · rw [hbytes]
      exact within_rows.mpr ⟨hj, hlow, hhigh⟩

theorem chunks_apart {c c' : Nat × Nat} (hc : c ∈ chunks chunkRows shape dtype)
    (hc' : c' ∈ chunks chunkRows shape dtype) {j : Nat} (hj : Within c j) (hj' : Within c' j) :
    c = c' := by
  match shape with
  | [] | [_] => rw [List.mem_singleton.mp hc, List.mem_singleton.mp hc']
  | rows :: axis :: axes =>
    obtain ⟨k, -, rfl⟩ := (chunks_rows c).mp hc
    obtain ⟨k', -, rfl⟩ := (chunks_rows c').mp hc'
    obtain ⟨-, hlow, hhigh⟩ := within_rows.mp hj
    obtain ⟨-, hlow', hhigh'⟩ := within_rows.mp hj'
    rw [Nat.mul_assoc] at hlow hhigh hlow' hhigh'
    have hle : k < k' + 1 := Nat.lt_of_mul_lt_mul_right (Nat.lt_of_le_of_lt hlow hhigh')
    have hle' : k' < k + 1 := Nat.lt_of_mul_lt_mul_right (Nat.lt_of_le_of_lt hlow' hhigh)
    obtain rfl : k = k' := by omega
    rfl

end Chunks

/-! ## An upload -/

section Upload

variable {mirror new : Bytes}

theorem uploadChunks_apply (cs : List (Nat × Nat)) (dev : Bytes × Nat) (j : Nat) :
    (cs.foldl (uploadChunk mirror new) dev).1 j =
      if ∃ c ∈ cs, Within c j ∧ ¬ ChunkEqual mirror new c then new j else dev.1 j := by
  induction cs generalizing dev with
  | nil => simp
  | cons c cs ih =>
    rw [List.foldl_cons, ih]
    unfold uploadChunk
    by_cases hrest : ∃ c ∈ cs, Within c j ∧ ¬ ChunkEqual mirror new c
    · obtain ⟨c', hc', hhit⟩ := hrest
      rw [if_pos ⟨c', hc', hhit⟩, if_pos ⟨c', List.mem_cons_of_mem c hc', hhit⟩]
    · rw [if_neg hrest]
      by_cases hequal : ChunkEqual mirror new c
      · rw [if_pos hequal, if_neg]
        rintro ⟨c', hc', hhit⟩
        rcases List.mem_cons.mp hc' with rfl | hc'
        · exact hhit.2 hequal
        · exact hrest ⟨c', hc', hhit⟩
      · rw [if_neg hequal]
        by_cases hj : Within c j
        · rw [if_pos ⟨c, List.mem_cons_self, hj, hequal⟩]
          exact if_pos hj
        · rw [if_neg]
          · exact if_neg hj
          · rintro ⟨c', hc', hhit⟩
            rcases List.mem_cons.mp hc' with rfl | hc'
            · exact hj hhit.1
            · exact hrest ⟨c', hc', hhit⟩

theorem uploadChanged_exact {chunkRows : Nat} (hpos : 0 < chunkRows) (shape : List Nat)
    (dtype : Dtype) (dev : Bytes) :
    (∀ j < nbytes shape dtype, (uploadChanged chunkRows shape dtype mirror new dev).1 j = new j) ↔
      ∀ c ∈ chunks chunkRows shape dtype, ChunkEqual mirror new c → ChunkEqual dev new c := by
  unfold uploadChanged
  simp only [uploadChunks_apply]
  constructor
  · intro h c hc hequal j hj
    have hnew := h j (chunks_within hc hj)
    rw [if_neg] at hnew
    · exact hnew
    · rintro ⟨c', hc', hj', hne⟩
      exact hne (chunks_apart hc hc' hj hj' ▸ hequal)
  · intro h j hj
    obtain ⟨c, hc, hcj⟩ := chunks_cover hpos hj
    split
    · rfl
    · rename_i hnone
      have hequal : ChunkEqual mirror new c := by
        by_contra hne
        exact hnone ⟨c, hc, hcj, hne⟩
      exact h c hc hequal j hcj

end Upload

/-! ## One input -/

/-- The device holds what the array of the last bind held at that bind. -/
def CoherentAt (runner : Runner) (name : String) : Prop :=
  ∀ bound, runner.inputs[name]? = some bound →
    ∀ j < nbytes bound.shape bound.dtype, bound.dev j = bound.seen j

def Coherent (runner : Runner) : Prop := ∀ name, CoherentAt runner name

/-- Each chunk in which the mirror, read now, agrees with the array held these bytes at the last
bind too. -/
def ChunksTell (runner : Runner) (entry : String × HostArray) : Prop :=
  ∀ bound, runner.inputs[entry.1]? = some bound → entry.2.shape = bound.shape →
    ∀ c ∈ chunks runner.chunkRows bound.shape bound.dtype,
      ChunkEqual (bound.mirror.bytes runner.memory) (entry.2.contents runner.memory) c →
      ChunkEqual bound.seen (entry.2.contents runner.memory) c

/-- The dtype of an input is that of its name. -/
def Typed (runner : Runner) : Prop :=
  ∀ name bound, runner.inputs[name]? = some bound → inputDtype name = some bound.dtype

section Input

variable {runner runner' : Runner} {entry : String × HostArray}

theorem bindInput_ok (ht : Typed runner) (h : bindInput runner entry = .ok runner') :
    ∃ bound', runner'.memory = runner.memory ∧ runner'.chunkRows = runner.chunkRows ∧
      runner'.closed = runner.closed ∧
      runner'.inputs = runner.inputs.insert entry.1 bound' ∧
      inputDtype entry.1 = some bound'.dtype ∧
      bound'.seen = entry.2.contents runner.memory ∧
      ((runner.inputs[entry.1]? = none ∧ bound'.dev = bound'.seen) ∨
        ∃ bound, runner.inputs[entry.1]? = some bound ∧ entry.2.shape = bound.shape ∧
          bound'.shape = bound.shape ∧ bound'.dtype = bound.dtype ∧
          bound'.dev = (uploadChanged runner.chunkRows bound.shape bound.dtype
            (bound.mirror.bytes runner.memory) bound'.seen bound.dev).1) := by
  unfold bindInput at h
  split at h
  · simp at h
  · rename_i dtype hdtype
    dsimp only at h
    split at h
    · rename_i hnone
      rw [← Except.ok.inj h]
      exact ⟨_, rfl, rfl, rfl, rfl, hdtype, rfl, Or.inl ⟨hnone, rfl⟩⟩
    · rename_i bound hbound
      have hsame : dtype = bound.dtype := Option.some.inj (hdtype.symm.trans (ht _ _ hbound))
      split at h
      · simp at h
      · rename_i hshape
        rw [not_not] at hshape
        rw [← Except.ok.inj h]
        refine ⟨_, rfl, rfl, rfl, rfl, ht _ bound hbound, rfl,
          Or.inr ⟨bound, hbound, hshape, rfl, rfl, ?_⟩⟩
        rw [hshape, hsame]

theorem bindInput_typed (ht : Typed runner) (h : bindInput runner entry = .ok runner') :
    Typed runner' := by
  obtain ⟨bound', -, -, -, hinputs, hdtype, -⟩ := bindInput_ok ht h
  intro name bound hbound
  rw [hinputs] at hbound
  by_cases hname : name = entry.1
  · subst hname
    rw [Std.ExtTreeMap.getElem?_insert_self] at hbound
    rw [← Option.some.inj hbound]
    exact hdtype
  · rw [Dict.getElem?_insert_of_ne _ _ (Ne.symm hname)] at hbound
    exact ht name bound hbound

theorem bindInput_other (ht : Typed runner) (h : bindInput runner entry = .ok runner')
    {name : String} (hname : name ≠ entry.1) : CoherentAt runner' name ↔ CoherentAt runner name := by
  obtain ⟨bound', -, -, -, hinputs, -⟩ := bindInput_ok ht h
  unfold CoherentAt
  rw [hinputs, Dict.getElem?_insert_of_ne _ _ (Ne.symm hname)]

theorem bindInput_coherentAt (ht : Typed runner) (hc : CoherentAt runner entry.1)
    (h : bindInput runner entry = .ok runner') :
    CoherentAt runner' entry.1 ↔ ChunksTell runner entry := by
  obtain ⟨bound', -, -, -, hinputs, -, hseen, hcase⟩ := bindInput_ok ht h
  unfold CoherentAt
  rw [hinputs]
  simp only [Std.ExtTreeMap.getElem?_insert_self, Option.some.injEq, forall_eq']
  unfold ChunksTell
  rcases hcase with ⟨hnone, hdev⟩ | ⟨bound, hbound, hshape, hshape', hdtype', hdev⟩
  · simp [hnone, hdev]
  · simp only [hbound, Option.some.injEq, forall_eq', hshape, true_implies]
    rw [hshape', hdtype', hdev, hseen, uploadChanged_exact runner.chunkRows_pos]
    refine forall₃_congr fun c hmem _ => forall₂_congr fun j hj => ?_
    rw [hc bound hbound j (chunks_within hmem hj)]

end Input

/-! ## One bind -/

def bindInput? (runner : Runner) (entry : String × HostArray) : Option Runner :=
  (bindInput runner entry).toOption

section Bind

variable {runner runner' : Runner}

theorem bindInput?_some {entry : String × HostArray} :
    bindInput? runner entry = some runner' ↔ bindInput runner entry = .ok runner' := by
  unfold bindInput?
  cases bindInput runner entry <;> simp [Except.toOption]

theorem bindInputs_typed (ht : Typed runner) (entries : List (String × HostArray)) :
    Typed (bindInputs runner entries).1 := by
  induction entries generalizing runner with
  | nil => exact ht
  | cons entry rest ih =>
    unfold bindInputs
    cases h : bindInput runner entry with
    | error e => exact ht
    | ok next => exact ih (bindInput_typed ht h)

theorem bindInputs_other (ht : Typed runner) {entries : List (String × HostArray)} {name : String}
    (hname : name ∉ entries.map (·.1)) :
    CoherentAt (bindInputs runner entries).1 name ↔ CoherentAt runner name := by
  induction entries generalizing runner with
  | nil => rfl
  | cons entry rest ih =>
    rw [List.map_cons, List.mem_cons, not_or] at hname
    unfold bindInputs
    cases h : bindInput runner entry with
    | error e => rfl
    | ok next => exact (ih (bindInput_typed ht h) hname.2).trans (bindInput_other ht h hname.1)

theorem bindInputs_coherent (ht : Typed runner) (hc : Coherent runner)
    {entries : List (String × HostArray)} (hnodup : (entries.map (·.1)).Nodup) :
    Coherent (bindInputs runner entries).1 ↔ EachStep bindInput? ChunksTell runner entries := by
  induction entries generalizing runner with
  | nil => exact iff_of_true hc trivial
  | cons entry rest ih =>
    rw [List.map_cons, List.nodup_cons] at hnodup
    unfold bindInputs EachStep
    cases h : bindInput runner entry with
    | error e =>
      refine iff_of_true hc ⟨?_, ?_⟩
      · intro bound hbound hshape
        unfold bindInput at h
        rw [ht _ _ hbound] at h
        simp [hbound, hshape] at h
      · intro next hnext
        rw [bindInput?_some, h] at hnext
        cases hnext
    | ok next =>
      have hsome : bindInput? runner entry = some next := bindInput?_some.mpr h
      simp only [hsome, Option.some.injEq, forall_eq']
      have hat := bindInput_coherentAt ht (hc entry.1) h
      by_cases htell : ChunksTell runner entry
      · have hnext : Coherent next := by
          intro name
          by_cases hname : name = entry.1
          · subst hname
            exact hat.mpr htell
          · exact (bindInput_other ht h hname).mpr (hc name)
        rw [ih (bindInput_typed ht h) hnext hnodup.2, and_iff_right htell]
      · refine iff_of_false (fun hall => htell ?_) fun hall => htell hall.1
        exact hat.mp ((bindInputs_other (bindInput_typed ht h) hnodup.1).mp (hall entry.1))

end Bind

/-! ## Runs -/

/-- What a bind must find: every chunk that it leaves alone is on the device already. -/
def BindsTell (runner : Runner) : DeviceEvent → Prop
  | .bind arrays => runner.closed = false → EachStep bindInput? ChunksTell runner arrays.entries
  | _ => True

section Step

variable {runner runner' : Runner} {event : DeviceEvent}

theorem deviceStep_typed (ht : Typed runner) (h : deviceStep runner event = some runner') :
    Typed runner' := by
  cases event with
  | write address bytes =>
    obtain rfl := Option.some.inj h
    exact ht
  | bind arrays =>
    obtain rfl := Option.some.inj h
    unfold bind
    split
    · exact ht
    · exact bindInputs_typed ht _
  | close =>
    obtain rfl := Option.some.inj h
    intro name bound hbound
    simp at hbound

theorem deviceStep_coherent (ht : Typed runner) (hc : Coherent runner)
    (h : deviceStep runner event = some runner') : Coherent runner' ↔ BindsTell runner event := by
  cases event with
  | write address bytes =>
    obtain rfl := Option.some.inj h
    exact iff_of_true hc trivial
  | bind arrays =>
    obtain rfl := Option.some.inj h
    unfold bind BindsTell
    cases hclosed : runner.closed with
    | true => simpa using hc
    | false =>
      simp only [Bool.false_eq_true, if_false, true_implies]
      exact bindInputs_coherent ht hc arrays.nodup
  | close =>
    obtain rfl := Option.some.inj h
    refine iff_of_true ?_ trivial
    intro name bound hbound
    simp at hbound

end Step

/-- In a run the device follows the arrays throughout exactly when each bind finds the chunks that
it leaves alone on the device. -/
theorem device_coherent {memory : Bytes} {chunkRows : Nat} (h : 0 < chunkRows)
    {events : List DeviceEvent} {runner : Runner}
    (hrun : run deviceStep (Runner.fresh memory chunkRows h) events = some runner) :
    (∀ reached, Visits deviceStep (Runner.fresh memory chunkRows h) events reached →
      Coherent reached) ↔
      EachStep deviceStep BindsTell (Runner.fresh memory chunkRows h) events := by
  refine always_iff_eachStep (fun _ _ _ ht hstep => deviceStep_typed ht hstep)
    (fun _ _ _ ht hc hstep => deviceStep_coherent ht hc hstep) ?_ ?_ hrun
  · intro name bound hbound
    simp [Runner.fresh] at hbound
  · intro name bound hbound
    simp [Runner.fresh] at hbound

/-! ### One array, written in place between two binds -/

def lupPre : Arrays where
  entries := [("Lup_pre", { shape := [1, 1], layout := .direct 0 })]
  nodup := by decide

def writtenInPlace : List DeviceEvent := [.bind lupPre, .write 0 [1], .bind lupPre]

theorem writtenInPlace_stale : ¬ ∀ (memory : Bytes) (chunkRows : Nat) (h : 0 < chunkRows)
    (events : List DeviceEvent) (runner : Runner),
    run deviceStep (Runner.fresh memory chunkRows h) events = some runner → Coherent runner := by
  intro h
  have hrun : (run deviceStep (Runner.fresh (fun _ => 0) 128 (by decide)) writtenInPlace).bind
      (fun runner => runner.inputs["Lup_pre"]?.map fun bound =>
        (bound.dev 0, bound.seen 0, nbytes bound.shape bound.dtype)) = some (0, 1, 4) := by
    decide
  obtain ⟨runner, hrunner, hview⟩ := Option.bind_eq_some_iff.mp hrun
  obtain ⟨bound, hbound, hview⟩ := Option.map_eq_some_iff.mp hview
  simp only [Prod.mk.injEq] at hview
  have hsame := h _ _ _ _ runner hrunner "Lup_pre" bound hbound 0 (by omega)
  rw [hview.1, hview.2.1] at hsame
  exact absurd hsame (by decide)

theorem device_coherent_written_in_place :
    ∃ runner, run deviceStep (Runner.fresh (fun _ => 0) 128 (by decide)) writtenInPlace =
      some runner ∧
    ((∀ reached, Visits deviceStep (Runner.fresh (fun _ => 0) 128 (by decide)) writtenInPlace
      reached → Coherent reached) ↔
      EachStep deviceStep BindsTell (Runner.fresh (fun _ => 0) 128 (by decide)) writtenInPlace) :=
  ⟨_, rfl, device_coherent (by decide) rfl⟩

end Solweig.Cuda

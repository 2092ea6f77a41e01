import SourceSurvey.Proofs.Attribution
import Mathlib.Data.List.Forall2

/-! Two texts with the same declarations. Where the headers of two sites answer each other one by
one and their places are in the same order, every type of the one owns what the type that answers it
owns in the other. So the lists of types agree as far as the declarations do, seen through a view
that leaves out or changes some of what is reported. -/

namespace SourceSurvey.Source

open Text

/-- What is looked at of a report: its lines, attribute lists and parameters, each possibly changed.
-/
structure View where
  line : Nat → Nat
  attributes : List Text → List Text
  parameter : Parameter → Parameter

namespace View

def ofMethod (v : View) (m : Method) : Method :=
  { m with
    parameters := m.parameters.map v.parameter
    attributes := v.attributes m.attributes
    line := v.line m.line }

def ofConstructor (v : View) (c : Constructor) : Constructor :=
  { c with
    parameters := c.parameters.map v.parameter
    attributes := v.attributes c.attributes
    line := v.line c.line }

def ofType (v : View) (d : TypeDeclaration) : TypeDeclaration :=
  { d with
    recordComponents := d.recordComponents.map v.parameter
    attributes := v.attributes d.attributes
    methods := d.methods.map v.ofMethod
    constructors := d.constructors.map v.ofConstructor
    line := v.line d.line }

/-- The view of everything as it is. -/
def whole : View := ⟨id, id, id⟩

theorem ofMethod_whole (m : Method) : whole.ofMethod m = m := by simp [ofMethod, whole]

theorem ofConstructor_whole (c : Constructor) : whole.ofConstructor c = c := by
    simp [ofConstructor, whole]

theorem ofType_whole (d : TypeDeclaration) : whole.ofType d = d := by
  have methods : d.methods.map whole.ofMethod = d.methods := by simp [funext ofMethod_whole]
  have constructors : d.constructors.map whole.ofConstructor = d.constructors := by
    simp [funext ofConstructor_whole]
  rw [ofType, methods, constructors]
  simp [whole]

def ofSummary (v : View) (s : FileSummary) : FileSummary := { s with types := s.types.map v.ofType }

theorem map_ofType_whole (ds : List TypeDeclaration) : ds.map whole.ofType = ds := by
  rw [funext ofType_whole, List.map_id']

/-- One view after another. -/
def after (v w : View) : View where
  line := v.line ∘ w.line
  attributes := v.attributes ∘ w.attributes
  parameter := v.parameter ∘ w.parameter

theorem ofType_after (v w : View) (d : TypeDeclaration) :
    (v.after w).ofType d = v.ofType (w.ofType d) := by
  have methods : d.methods.map (v.after w).ofMethod = (d.methods.map w.ofMethod).map
      v.ofMethod := by
    simp [ofMethod, after]
  have constructors : d.constructors.map (v.after w).ofConstructor =
      (d.constructors.map w.ofConstructor).map v.ofConstructor := by
    simp [ofConstructor, after]
  simp only [ofType, methods, constructors]
  simp [after]

theorem ofSummary_after (v w : View) (s : FileSummary) :
    (v.after w).ofSummary s = v.ofSummary (w.ofSummary s) := by
  have types : s.types.map (v.after w).ofType = (s.types.map w.ofType).map v.ofType := by
    rw [List.map_map]
    exact congrArg (s.types.map ·) (funext fun d => ofType_after v w d)
  rw [ofSummary, ofSummary, ofSummary, types]

end View

/-! ### Lists that answer each other -/

section Answering

variable {α β γ : Type} {r : α → β → Prop} {l : List α} {l' : List β}

theorem map_eq_of_forall₂ {f : α → γ} {f' : β → γ} (h : List.Forall₂ r l l')
    (hf : ∀ a b, r a b → f a = f' b) :
    l.map f = l'.map f' := by
  induction h with
  | nil => rfl
  | cons ha _ ih => rw [List.map_cons, List.map_cons, hf _ _ ha, ih]

theorem map_zipIdx_eq_of_forall₂ {f : α × Nat → γ} {f' : β × Nat → γ} (h : List.Forall₂ r l l')
    (hf : ∀ a b i, r a b → f (a, i) = f' (b, i)) (start : Nat) :
    (l.zipIdx start).map f = (l'.zipIdx start).map f' := by
  induction h generalizing start with
  | nil => rfl
  | cons ha _ ih =>
      rw [List.zipIdx_cons, List.zipIdx_cons, List.map_cons, List.map_cons, hf _ _ _ ha, ih]

theorem map_filter_eq_of_forall₂ {f : α → γ} {f' : β → γ} {p : α → Bool} {p' : β → Bool}
    (h : List.Forall₂ r l l') (hp : ∀ a b, r a b → p a = p' b) (hf : ∀ a b, r a b → f a = f' b) :
    (l.filter p).map f = (l'.filter p').map f' :=
  map_eq_of_forall₂ (r := r) (List.rel_filter (fun a b hab => by simp [hp a b hab]) h) hf

theorem rel_getElem? (h : List.Forall₂ r l l') (i : Nat) : Option.Rel r l[i]? l'[i]? := by
  induction h generalizing i with
  | nil => exact .none
  | cons ha _ ih =>
    cases i with
    | zero => exact .some ha
    | succ i => exact ih i

end Answering

/-! ### The types of two sites -/

/-- The site of a text that is masked already. -/
def Site.ofMasked (language : Language) (t : Text) : Site := ⟨language, t, LineTable.ofText t⟩

/-- The summary of a text that is masked already. -/
def FileSummary.ofMasked (language : Language) (path t : Text) : FileSummary :=
  ⟨path, language, language.scope? t, (Site.ofMasked language t).types, none⟩

theorem summarize_eq (language : Language) (path t : Text) :
    summarize language path t = .ofMasked language path (mask language t) := rfl

section Types

variable {move : Nat → Nat} (hm : ∀ a b, move a ≤ move b ↔ a ≤ b)
include hm

/-- Intervals between headers answer each other where the places do. -/
theorem holds_move {headers headers' : List TypeHeader}
    (h : List.Forall₂ (fun a b => b.start = move a.start) headers headers') (index offset : Nat) :
    holds headers' index (move offset) = holds headers index offset := by
  have first := rel_getElem? h index
  have next := rel_getElem? h (index + 1)
  have later : ∀ a b : Nat, move a < move b ↔ a < b := fun a b => by
    rw [← Nat.not_le, ← Nat.not_le, hm]
  rw [holds, holds]
  congr 1
  · generalize headers[index]? = a, headers'[index]? = a' at first
    cases first with
    | none => rfl
    | some hs => simp [hs, hm]
  · generalize headers[index + 1]? = a, headers'[index + 1]? = a' at next
    cases next with
    | none => rfl
    | some hs => simp [hs, later]

/-- Types agree in two views where the headers do, one by one, and their places are in the same
order. -/
theorem Site.map_types_eq {site site' : Site} {v v' : View}
    (types : List.Forall₂ (fun h h' => v.ofType (site.typeOf h) = v'.ofType (site'.typeOf h') ∧
        h'.start = move h.start)
      (site.language.typeHeaders site.masked) (site'.language.typeHeaders site'.masked))
    (methods : List.Forall₂
    (fun m m' => v.ofMethod (site.methodOf m) = v'.ofMethod (site'.methodOf m') ∧
        m'.start = move m.start)
      site.methodHeaders site'.methodHeaders)
    (constructors : List.Forall₂ (fun c c' =>
        (v.ofConstructor (site.constructorOf c) = v'.ofConstructor (site'.constructorOf c') ∧
          isCreationLike c = isCreationLike c') ∧ c'.start = move c.start)
      (site.language.constructorHeaders site.masked)
        (site'.language.constructorHeaders site'.masked)) :
    site.types.map v.ofType = site'.types.map v'.ofType := by
  have moved := holds_move hm (types.imp fun _ _ h => h.2)
  rw [Site.types_eq, Site.types_eq, List.map_map, List.map_map]
  refine map_zipIdx_eq_of_forall₂ types (fun h h' index ht => ?_) 0
  have name : h.name = h'.name := congrArg TypeDeclaration.name ht.1
  have ownMethods :
      (site.methodHeaders.filter fun m =>
        holds (site.language.typeHeaders site.masked) index m.start).map
      (fun m => v.ofMethod (site.methodOf m)) =
        (site'.methodHeaders.filter fun m =>
          holds (site'.language.typeHeaders site'.masked) index m.start).map
          fun m => v'.ofMethod (site'.methodOf m) :=
    map_filter_eq_of_forall₂ methods (fun m m' hmm => by rw [hmm.2, moved]) fun _ _ hmm => hmm.1
  have ownConstructors : ((site.language.constructorHeaders site.masked).filter fun c =>
        holds (site.language.typeHeaders site.masked) index c.start &&
          (c.name = h.name && !isCreationLike c)).map
      (fun c => v.ofConstructor (site.constructorOf c)) =
        ((site'.language.constructorHeaders site'.masked).filter fun c =>
          holds (site'.language.typeHeaders site'.masked) index c.start &&
            (c.name = h'.name && !isCreationLike c)).map
          fun c => v'.ofConstructor (site'.constructorOf c) :=
    map_filter_eq_of_forall₂ constructors (fun c c' hcc => by
      have named : c.name = c'.name := congrArg Constructor.name hcc.1.1
      rw [hcc.2, moved, hcc.1.2, name, named]) fun _ _ hcc => hcc.1.1
  have own := ht.1
  simp only [View.ofType, Site.typeOf, TypeDeclaration.mk.injEq, List.map_map, Function.comp_def]
    at own ⊢
  obtain ⟨h1, h2, h3, h4, h5, h6, h7, h8, h9, h10, -, -, h13⟩ := own
  exact ⟨h1, h2, h3, h4, h5, h6, h7, h8, h9, h10, ownMethods, ownConstructors, h13⟩

end Types

end SourceSurvey.Source

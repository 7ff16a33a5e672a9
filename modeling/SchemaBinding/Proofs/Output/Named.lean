import SchemaBinding.Proofs.Classes.Retained
import SchemaBinding.Proofs.Output.Identifiers

/-! Names given to classes. Fields and inner classes get theirs in turn, each one that is free of those before it, and
nothing but what a class and those around it are called counts for this.
Main statement: the names of classes in one package, of the fields of a class and of the classes in a class are distinct
identifiers; nothing else changes, giving names again changes nothing, and further classes do not change the names before
them. -/
namespace SchemaBinding

/-! ## Without names -/

/-- A field without the name that generated code uses. -/
def Field.unnamed (f : Field) : Field := { f with localName := "" }

namespace Class

mutual

/-- A class without the names that generated code uses. -/
def unnamed : Class → Class
  | c@{ inner, .. } => { c with localName := "", fields := c.fields.map Field.unnamed, inner := unnamedAll inner }

def unnamedAll : List Class → List Class
  | [] => []
  | c :: rest => unnamed c :: unnamedAll rest

end

theorem unnamedAll_eq_map (cs : List Class) : unnamedAll cs = cs.map unnamed := by
  induction cs with
  | nil => rfl
  | cons c cs ih => rw [unnamedAll,ih,List.map_cons]

theorem unnamed_eq (c : Class) :
    unnamed c = { c with localName := "", fields := c.fields.map Field.unnamed, inner := c.inner.map unnamed } := by
  cases c
  rw [unnamed,unnamedAll_eq_map]

/-- How a class is named. -/
structure WellNamed (c : Class) : Prop where
  name : IsIdentifier c.localName
  fields : (c.fields.map Field.localName).Nodup
  fieldNames : ∀ f ∈ c.fields, IsIdentifier f.localName
  inner : (c.inner.map Class.localName).Nodup

end Class

namespace Output

/-! ## Names in turn -/

/-- Free names for those that are wanted, one by one. -/
def allot (taken : List String) : List String → List String
  | [] => []
  | wanted :: rest =>
    let name := freeName wanted taken
    name :: allot (name :: taken) rest

theorem nodup_allot (taken wanted : List String) :
    (allot taken wanted).Nodup ∧ ∀ name ∈ allot taken wanted, name ∉ taken := by
  induction wanted generalizing taken with
  | nil => simp [allot]
  | cons name wanted ih =>
    obtain ⟨hnodup,hfresh⟩ := ih (freeName name taken :: taken)
    refine ⟨List.nodup_cons.mpr ⟨fun hmem => hfresh _ hmem List.mem_cons_self,hnodup⟩,List.forall_mem_cons.mpr
      ⟨freeName_not_mem name taken,fun other hother htaken => hfresh other hother (List.mem_cons_of_mem _ htaken)⟩⟩

theorem isIdentifier_of_mem_allot {taken wanted : List String} (h : ∀ name ∈ wanted, IsIdentifier name) :
    ∀ name ∈ allot taken wanted, IsIdentifier name := by
  induction wanted generalizing taken with
  | nil => simp [allot]
  | cons name wanted ih =>
    obtain ⟨hname,hwanted⟩ := List.forall_mem_cons.mp h
    exact List.forall_mem_cons.mpr ⟨isIdentifier_freeName hname taken,ih hwanted⟩

namespace Format
variable (format : Format)

theorem map_localName_designateFields (taken : List String) (fs : List Field) :
    (format.designateFields taken fs).map Field.localName = allot taken (fs.map format.memberName) := by
  induction fs generalizing taken with
  | nil => rfl
  | cons f fs ih => rw [designateFields,List.map_cons,ih,List.map_cons,allot]

theorem map_localName_designateInner (taken : List String) (cs : List Class) :
    (format.designateInner taken cs).map Class.localName = allot taken (cs.map fun c => format.className c.name) := by
  induction cs generalizing taken with
  | nil => rfl
  | cons c cs ih => rw [designateInner,List.map_cons,ih,List.map_cons,allot,localName_designateClass]

theorem designateClass_eq (name : String) (c : Class) : format.designateClass name c =
    { c with localName := name, fields := format.designateFields [] c.fields, inner := format.designateInner [] c.inner } := by
  cases c
  rw [designateClass]

theorem mem_designateInner {taken : List String} {cs : List Class} {d : Class} (h : d ∈ format.designateInner taken cs) :
    ∃ name, ∃ c ∈ cs, d = format.designateClass name c := by
  induction cs generalizing taken with
  | nil => cases h
  | cons c cs ih =>
    rcases List.mem_cons.mp h with rfl | h
    · exact ⟨_,c,List.mem_cons_self,rfl⟩
    · obtain ⟨name,b,hb,hd⟩ := ih h
      exact ⟨name,b,List.mem_cons_of_mem _ hb,hd⟩

/-! ## Classes are well named -/

variable {format}

theorem Sound.isIdentifier_allot_classes (h : format.Sound) (taken : List String) (cs : List Class) :
    ∀ name ∈ allot taken (cs.map fun c => format.className c.name), IsIdentifier name :=
  isIdentifier_of_mem_allot (List.forall_mem_map.mpr fun c _ => h.className c.name)

theorem Sound.isIdentifier_allot_fields (h : format.Sound) (taken : List String) (fs : List Field) :
    ∀ name ∈ allot taken (fs.map format.memberName), IsIdentifier name :=
  isIdentifier_of_mem_allot (List.forall_mem_map.mpr fun f _ => h.memberName f)

theorem Sound.everywhere_designateClass (h : format.Sound) (c : Class) {name : String} (hname : IsIdentifier name) :
    Class.Everywhere Class.WellNamed [format.designateClass name c] := by
  induction c using Class.inductionOnInner generalizing name with
  | step c ih =>
    have hfields := format.map_localName_designateFields [] c.fields
    have hinner := format.map_localName_designateInner [] c.inner
    rw [Class.everywhere_singleton,designateClass_eq]
    refine ⟨⟨hname,?_,?_,?_⟩,fun d hd => ?_⟩
    · rw [hfields]
      exact (nodup_allot _ _).1
    · rw [← List.forall_mem_map (f := Field.localName) (P := IsIdentifier),hfields]
      exact h.isIdentifier_allot_fields [] c.fields
    · rw [hinner]
      exact (nodup_allot _ _).1
    · obtain ⟨wanted,b,hb,rfl⟩ := format.mem_designateInner hd
      have hnamed : wanted ∈ allot [] (c.inner.map fun b => format.className b.name) := by
        rw [← hinner]
        exact List.mem_map.mpr ⟨_,hd,localName_designateClass format wanted b⟩
      exact ih b hb (h.isIdentifier_allot_classes [] c.inner wanted hnamed) _ (List.mem_singleton_self _)

theorem Sound.everywhere_designateClasses (h : format.Sound) (taken : List (Option String × String)) (cs : List Class) :
    Class.Everywhere Class.WellNamed (format.designateClasses taken cs) := by
  induction cs generalizing taken with
  | nil => exact Class.everywhere_nil
  | cons c cs ih =>
    rw [designateClasses,← List.singleton_append,Class.everywhere_append]
    exact ⟨h.everywhere_designateClass c (isIdentifier_freeName (h.className c.name) _),ih _⟩

/-! ## What counts for names -/

variable (format)

theorem map_unnamed_designateFields (taken : List String) (fs : List Field) :
    (format.designateFields taken fs).map Field.unnamed = fs.map Field.unnamed := by
  induction fs generalizing taken with
  | nil => rfl
  | cons f fs ih => rw [designateFields,List.map_cons,ih,List.map_cons,Field.unnamed,Field.unnamed]

theorem map_unnamed_designateInner (taken : List String) {cs : List Class}
    (h : ∀ c ∈ cs, ∀ name, (format.designateClass name c).unnamed = c.unnamed) :
    (format.designateInner taken cs).map Class.unnamed = cs.map Class.unnamed := by
  induction cs generalizing taken with
  | nil => rfl
  | cons c cs ih =>
    obtain ⟨hc,hcs⟩ := List.forall_mem_cons.mp h
    rw [designateInner,List.map_cons,hc,ih _ hcs,List.map_cons]

/-- Giving names changes nothing but names. -/
theorem unnamed_designateClass (name : String) (c : Class) : (format.designateClass name c).unnamed = c.unnamed := by
  induction c using Class.inductionOnInner generalizing name with
  | step c ih =>
    have hinner := format.map_unnamed_designateInner [] fun b hb name => ih b hb name
    rw [Class.unnamed_eq,designateClass_eq,Class.unnamed_eq c]
    simp only [map_unnamed_designateFields,hinner]

theorem map_unnamed_designateClasses (taken : List (Option String × String)) (cs : List Class) :
    (format.designateClasses taken cs).map Class.unnamed = cs.map Class.unnamed := by
  induction cs generalizing taken with
  | nil => rfl
  | cons c cs ih => rw [designateClasses,List.map_cons,unnamed_designateClass,ih,List.map_cons]

theorem designateFields_map_unnamed (taken : List String) (fs : List Field) :
    format.designateFields taken (fs.map Field.unnamed) = format.designateFields taken fs := by
  induction fs generalizing taken with
  | nil => rfl
  | cons f fs ih =>
    rw [List.map_cons,designateFields,ih,designateFields]
    rfl

theorem designateInner_map_unnamed (taken : List String) {cs : List Class}
    (h : ∀ c ∈ cs, ∀ name, format.designateClass name c.unnamed = format.designateClass name c) :
    format.designateInner taken (cs.map Class.unnamed) = format.designateInner taken cs := by
  induction cs generalizing taken with
  | nil => rfl
  | cons c cs ih =>
    obtain ⟨hc,hcs⟩ := List.forall_mem_cons.mp h
    have hname : c.unnamed.name = c.name := by rw [Class.unnamed_eq]
    rw [List.map_cons,designateInner,hc,ih _ hcs,hname,designateInner]

/-- What a class and all below it are called in generated code so far does not count. -/
theorem designateClass_unnamed (name : String) (c : Class) :
    format.designateClass name c.unnamed = format.designateClass name c := by
  induction c using Class.inductionOnInner generalizing name with
  | step c ih =>
    have hinner := format.designateInner_map_unnamed [] fun b hb name => ih b hb name
    rw [designateClass_eq,designateClass_eq,Class.unnamed_eq]
    simp only [designateFields_map_unnamed,hinner]

theorem designateClasses_map_unnamed (taken : List (Option String × String)) (cs : List Class) :
    format.designateClasses taken (cs.map Class.unnamed) = format.designateClasses taken cs := by
  induction cs generalizing taken with
  | nil => rfl
  | cons c cs ih =>
    have hsame : c.unnamed.name = c.name ∧ c.unnamed.package = c.package := by
      rw [Class.unnamed_eq]
      exact ⟨rfl,rfl⟩
    rw [List.map_cons,designateClasses,hsame.1,hsame.2,designateClass_unnamed,ih,designateClasses]

theorem designateClasses_designateClasses (taken : List (Option String × String)) (cs : List Class) :
    format.designateClasses taken (format.designateClasses taken cs) = format.designateClasses taken cs := by
  rw [← designateClasses_map_unnamed,map_unnamed_designateClasses,designateClasses_map_unnamed]

/-- Names are given from the first class on. -/
theorem designateClasses_append (taken : List (Option String × String)) (cs more : List Class) :
    ∃ es, format.designateClasses taken (cs ++ more) = format.designateClasses taken cs ++ es := by
  induction cs generalizing taken with
  | nil => exact ⟨_,rfl⟩
  | cons c cs ih =>
    obtain ⟨es,hes⟩ := ih (_ :: taken)
    exact ⟨es,by rw [List.cons_append,designateClasses,hes,designateClasses,List.cons_append]⟩

end Format

/-- Names in generated code are distinct identifiers, nothing else of a class changes, and neither giving names again nor
further classes change them. -/
theorem designate_names {w : Writer} {name : String} (hformat : w.format name = .ok .json) (cs : List Class) :
    ∃ ds, w.designate cs name = .ok ds ∧ (ds.map fun d => (d.package,d.localName)).Nodup ∧
      Class.Everywhere Class.WellNamed ds ∧ ds.map Class.unnamed = cs.map Class.unnamed ∧ w.designate ds name = .ok ds ∧
      ∀ more, ∃ es, w.designate (cs ++ more) name = .ok (ds ++ es) := by
  refine ⟨_,designate_eq hformat cs,(Format.json.nodup_designateClasses [] cs).1,
    Format.sound_json.everywhere_designateClasses [] cs,Format.json.map_unnamed_designateClasses [] cs,?_,fun more => ?_⟩
  · rw [designate_eq hformat,Format.designateClasses_designateClasses]
  · obtain ⟨es,hes⟩ := Format.json.designateClasses_append [] cs more
    exact ⟨es,by rw [designate_eq hformat,hes]⟩

/-- Classes and members that are told apart by characters that do not count, and by numbers. -/
def lookalikes : List Class :=
  let member (name : String) : Field := { name, type := "string", kind := .enumeration }
  [{ name := "a-b", kind := .simpleType, isRoot := true, package := some "p"
     fields := [member "größe",member "gr-e",member "gr e 1",member "7"] },
    { name := "aB 1", kind := .complexType, isRoot := true, package := some "p" },
    { name := "aB", kind := .complexType, isRoot := true, package := some "p" }]

theorem designate_names_lookalikes : ∃ ds, ({} : Writer).designate lookalikes "json" = .ok ds ∧
    ds.map (fun d => (d.localName,d.fields.map Field.localName)) =
      [("AB",["GR_E","GR_E_1","GR_E_1_1","_7"]),("AB1",[]),("AB_1",[])] ∧
    (ds.map fun d => (d.package,d.localName)).Nodup ∧ Class.Everywhere Class.WellNamed ds ∧
    ds.map Class.unnamed = lookalikes.map Class.unnamed ∧ ({} : Writer).designate ds "json" = .ok ds ∧
    ∀ more, ∃ es, ({} : Writer).designate (lookalikes ++ more) "json" = .ok (ds ++ es) := by
  have hformat : ({} : Writer).format "json" = .ok .json := rfl
  obtain ⟨ds,hds,hnamed⟩ := designate_names hformat lookalikes
  have hview : (({} : Writer).designate lookalikes "json").toOption.map (fun ds =>
      ds.map fun d => (d.localName,d.fields.map Field.localName)) =
        some [("AB",["GR_E","GR_E_1","GR_E_1_1","_7"]),("AB1",[]),("AB_1",[])] := by
    decide +kernel
  rw [hds] at hview
  exact ⟨ds,hds,Option.some.inj hview,hnamed⟩

end Output
end SchemaBinding

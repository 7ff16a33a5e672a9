import Mathlib.Algebra.BigOperators.Ring.List
import Mathlib.Algebra.Order.BigOperators.Group.List
import Mathlib.Data.ENat.Lattice
import Mathlib.Data.List.Induction
import SchemaBinding.Proofs.Reading.Preserved

/-! Bounds of particles as products. What is around a particle is gone once compositors are flattened, but for the bounds
that are taken up from it.
Main statement: a particle can be left out exactly if it or something around it allows that; and its upper bound is the
product of its own and those around it, saturated, unless a bound of 0 is among them: that is lost in most cases. -/
namespace SchemaBinding

namespace Xml
namespace Element

/-! ## Particles with what is around them -/

/-- An element, a wildcard or a reference to a group. -/
def isLeaf (e : Element) : Bool :=
  e.name = "element" || e.name = "any" || e.name = "group" && (e.attribute? "ref").isSome

mutual

/-- The particles in an element, each with the compositors around it, the outermost first. -/
def leaves : Element → List (List Element × Element)
  | e@{ children, .. } =>
    if isCompositor e.name then (leavesAmong children).map fun l => (e :: l.1,l.2)
    else if e.isLeaf then [([],e)] else []

def leavesAmong : List Element → List (List Element × Element)
  | [] => []
  | e :: rest => e.leaves ++ leavesAmong rest

end

theorem leavesAmong_eq_flatMap (es : List Element) : leavesAmong es = es.flatMap leaves := by
  induction es with
  | nil => rfl
  | cons e es ih => rw [leavesAmong,ih,List.flatMap_cons]

theorem leaves_eq (e : Element) : e.leaves =
    if isCompositor e.name then (e.children.flatMap leaves).map fun l => (e :: l.1,l.2)
    else if e.isLeaf then [([],e)] else [] := by
  cases e
  rw [leaves,leavesAmong_eq_flatMap]

/-- The particle of an element, a wildcard or a reference, with bounds. -/
def particleWith (e : Element) (occurs : Occurrence) : Particle :=
  if e.name = "element" then .element { e.elementDeclaration with occurs }
  else if e.name = "group" then .group ((e.attribute? "ref").getD "") occurs
  else .any (e.attribute? "namespace") occurs

/-- The surroundings inside of compositors, the outermost first. -/
def within (around : Surroundings) (cs : List Element) : Surroundings :=
  cs.foldl (fun around c => c.surroundings around) around

theorem particles_of_not_isCompositor {e : Element} (hcompositor : isCompositor e.name = false) (around : Surroundings) :
    e.particles around = if e.isLeaf then [e.particleWith (around.apply e.occurrence)] else [] := by
  rw [particles_eq,hcompositor]
  simp only [Bool.false_eq_true,if_false,isLeaf,particleWith,groupParticle?,anyParticle]
  by_cases helement : e.name = "element"
  · simp [helement,elementDeclaration,plainDeclaration]
  · by_cases hgroup : e.name = "group"
    · cases href : e.attribute? "ref" <;> simp [hgroup]
    · by_cases hany : e.name = "any" <;> simp [helement,hgroup,hany]

/-- Flattening leaves the particles, in their order, with what is around them in their bounds. -/
theorem particles_eq_leaves (e : Element) (around : Surroundings) : e.particles around =
    e.leaves.map fun l => l.2.particleWith ((within around l.1).apply l.2.occurrence) := by
  induction e using inductionOnChildren generalizing around with
  | step e ih =>
    rw [leaves_eq]
    cases hcompositor : isCompositor e.name with
    | true =>
      rw [particles_eq,if_pos hcompositor,if_pos rfl,particlesAmong_eq_flatMap,List.map_map,List.map_flatMap]
      exact List.flatMap_congr fun c hc => ih c hc (e.surroundings around)
    | false =>
      rw [particles_of_not_isCompositor hcompositor]
      split <;> rfl

/-! ## Lower bounds -/

theorem optional_within (around : Surroundings) (cs : List Element) : (within around cs).optional =
    (around.optional || cs.any fun c => c.name = "choice" || c.natural? "minOccurs" = some 0) := by
  induction cs generalizing around with
  | nil => simp [within]
  | cons c cs ih =>
    have hcons : within around (c :: cs) = within (c.surroundings around) cs := rfl
    rw [hcons,ih,List.any_cons,surroundings,Surroundings.nest,occurrence]
    simp only [Bool.or_assoc]

/-! ## Upper bounds -/

/-- What an upper bound says; an absent one is 1. -/
def most (e : Element) : ℕ∞ :=
  if e.attribute? "maxOccurs" = some "unbounded" then ⊤ else ((e.natural? "maxOccurs").getD 1 : Nat)

/-- An upper bound that is no number, or none beyond the largest. -/
def Bounded (e : Element) : Prop := ∀ n ∈ e.natural? "maxOccurs", n ≤ unbounded

/-- Bounds whose products, from the outermost on, are all smaller than the largest bound. -/
structure Small (cs : List Element) : Prop where
  each : ∀ c ∈ cs, c.most < unbounded
  products : ∀ ds, ds <+: cs → (ds.map most).prod < unbounded

theorem maxOccurs?_eq {e : Element} (h : e.Bounded) :
    ((e.maxOccurs?.getD 1 : Nat) : ℕ∞) = min (unbounded : ℕ∞) e.most := by
  unfold maxOccurs? most
  split
  · simp
  · rw [min_eq_right]
    cases hnumber : e.natural? "maxOccurs" with
    | none => exact_mod_cast (by decide : 1 ≤ unbounded)
    | some n => exact_mod_cast h n hnumber

theorem small_nil : Small [] where
  each := by simp
  products := by
    intro ds hds
    rw [List.prefix_nil.mp hds,List.map_nil,List.prod_nil]
    exact_mod_cast (by decide : 1 < unbounded)

theorem small_concat {cs : List Element} {c : Element} :
    Small (cs ++ [c]) ↔ Small cs ∧ c.most < unbounded ∧ (cs.map most).prod * c.most < unbounded := by
  constructor
  · intro h
    have hinit : cs <+: cs ++ [c] := List.prefix_append cs [c]
    refine ⟨⟨fun d hd => h.each d (hinit.subset hd),fun ds hds => h.products ds (hds.trans hinit)⟩,
      h.each c (by simp),?_⟩
    simpa using h.products _ (List.prefix_refl _)
  · rintro ⟨hcs,hc,hproduct⟩
    refine ⟨fun d hd => ?_,fun ds hds => ?_⟩
    · rcases List.mem_append.mp hd with hd | hd
      · exact hcs.each d hd
      · rwa [List.mem_singleton.mp hd]
    · rcases List.prefix_concat_iff.mp hds with rfl | hds
      · simpa using hproduct
      · exact hcs.products ds hds

theorem multiplyBounds_of_le {a b : Nat} (h : unbounded ≤ a ∨ unbounded ≤ b ∨ unbounded ≤ a * b) :
    multiplyBounds a b = unbounded := by
  unfold multiplyBounds
  split
  · rfl
  · exact min_eq_right (by tauto)

theorem multiplyBounds_of_lt {a b : Nat} (ha : a < unbounded) (hb : b < unbounded) :
    multiplyBounds a b = min (a * b) unbounded := if_neg (by omega)

theorem within_concat (around : Surroundings) (cs : List Element) (c : Element) :
    within around (cs ++ [c]) = c.surroundings (within around cs) := by
  simp [within]

/-- Small bounds are multiplied. -/
theorem max_within_of_small {cs : List Element} (hcs : ∀ c ∈ cs, c.Bounded) (h : Small cs) :
    ((within {} cs).max : ℕ∞) = (cs.map most).prod := by
  induction cs using List.reverseRecOn with
  | nil => simp [within]
  | append_singleton cs c ih =>
    obtain ⟨hsmall,hc,hproduct⟩ := small_concat.mp h
    have hmax := ih (fun d hd => hcs d (by simp [hd])) hsmall
    have hown := maxOccurs?_eq (hcs c (by simp))
    rw [min_eq_right hc.le] at hown
    have hall := hsmall.products cs (List.prefix_refl _)
    rw [List.map_append,List.prod_append,List.map_singleton,List.prod_singleton,within_concat]
    rw [← hmax,← hown] at hproduct ⊢
    rw [← hmax] at hall
    rw [← hown] at hc
    have hnat : multiplyBounds (within {} cs).max (c.maxOccurs?.getD 1) = (within {} cs).max * c.maxOccurs?.getD 1 := by
      rw [multiplyBounds_of_lt (by exact_mod_cast hall) (by exact_mod_cast hc)]
      exact min_eq_left (by exact_mod_cast hproduct.le)
    change ((multiplyBounds (within {} cs).max (c.maxOccurs?.getD 1) : Nat) : ℕ∞) = _
    rw [hnat,Nat.cast_mul]

/-- Where bounds are not small, they count as the largest one, whatever else is among them. -/
theorem max_within_of_not_small {cs : List Element} (hcs : ∀ c ∈ cs, c.Bounded) (h : ¬ Small cs) :
    (within {} cs).max = unbounded := by
  induction cs using List.reverseRecOn with
  | nil => exact absurd small_nil h
  | append_singleton cs c ih =>
    have hbounded : ∀ d ∈ cs, d.Bounded := fun d hd => hcs d (by simp [hd])
    rw [within_concat]
    refine multiplyBounds_of_le ?_
    by_cases hsmall : Small cs
    · have hown := maxOccurs?_eq (hcs c (by simp))
      by_cases hc : c.most < unbounded
      · rw [min_eq_right hc.le] at hown
        have hproduct : ¬ (cs.map most).prod * c.most < unbounded := fun hproduct => h (small_concat.mpr ⟨hsmall,hc,hproduct⟩)
        rw [← max_within_of_small hbounded hsmall,← hown,not_lt] at hproduct
        exact .inr (.inr (by exact_mod_cast hproduct))
      · rw [min_eq_left (not_lt.mp hc)] at hown
        exact .inr (.inl (by exact_mod_cast hown.ge))
    · exact .inl (ih hbounded hsmall).ge

/-- The bounds of a particle inside of compositors, the outermost first. -/
def flattened (cs : List Element) (leaf : Element) : Occurrence := (within {} cs).apply leaf.occurrence

/-- The product of the upper bounds of a particle and of what is around it. -/
def product (cs : List Element) (leaf : Element) : ℕ∞ := (cs.map most).prod * leaf.most

theorem max_flattened (cs : List Element) (leaf : Element) : (flattened cs leaf).max =
    if 1 < (within {} cs).max then some (multiplyBounds (leaf.maxOccurs?.getD 1) (within {} cs).max)
    else leaf.maxOccurs? := rfl

theorem product_eq_zero_iff {cs : List Element} {leaf : Element} :
    product cs leaf = 0 ↔ ∃ c ∈ leaf :: cs, c.most = 0 := by
  simp [product,List.prod_eq_zero_iff,or_comm]

/-- Where bounds are not small and none of them is 0, they amount to no less than the largest bound. -/
theorem le_product_of_not_small {cs : List Element} {leaf : Element} (h : ¬ Small cs)
    (hzero : ∀ c ∈ leaf :: cs, c.most ≠ 0) : (unbounded : ℕ∞) ≤ product cs leaf := by
  have hone : ∀ b ∈ cs.map most, 1 ≤ b := by
    intro b hb
    obtain ⟨c,hc,rfl⟩ := List.mem_map.mp hb
    exact Order.one_le_iff_ne_zero.mpr (hzero c (List.mem_cons_of_mem leaf hc))
  have hsublist (ds : List Element) (hds : ds.Sublist cs) (hlarge : (unbounded : ℕ∞) ≤ (ds.map most).prod) :
      (unbounded : ℕ∞) ≤ product cs leaf := by
    calc (unbounded : ℕ∞) ≤ (ds.map most).prod := hlarge
      _ ≤ (cs.map most).prod := (hds.map most).prod_le_prod' hone
      _ ≤ product cs leaf := le_mul_of_one_le_right zero_le (Order.one_le_iff_ne_zero.mpr (hzero leaf List.mem_cons_self))
  by_contra hless
  refine h ⟨fun c hc => ?_,fun ds hds => ?_⟩
  · by_contra hlarge
    exact hless (hsublist [c] (List.singleton_sublist.mpr hc) (by simpa using hlarge))
  · by_contra hlarge
    exact hless (hsublist ds hds.sublist (not_lt.mp hlarge))

section Flattened
variable {cs : List Element} {leaf : Element} (hcs : ∀ c ∈ cs, c.Bounded)
include hcs

theorem max_flattened_of_not_small (h : ¬ Small cs) : (flattened cs leaf).max = some unbounded := by
  have hmany : 1 < (within {} cs).max := by
    rw [max_within_of_not_small hcs h]
    decide
  rw [max_flattened,if_pos hmany,max_within_of_not_small hcs h,multiplyBounds_of_le (.inr (.inl le_rfl))]

/-- A small product of 0 around a particle is ignored. -/
theorem max_flattened_of_eq_zero (h : Small cs) (hzero : (cs.map most).prod = 0) :
    (flattened cs leaf).max = leaf.maxOccurs? := by
  rw [← max_within_of_small hcs h] at hzero
  have hnone : ¬ 1 < (within {} cs).max := by
    rw [show (within {} cs).max = 0 by exact_mod_cast hzero]
    decide
  rw [max_flattened,if_neg hnone]

theorem max_flattened_of_ne_zero (hleaf : leaf.Bounded) (h : Small cs) (hzero : (cs.map most).prod ≠ 0) :
    (((flattened cs leaf).max.getD 1 : Nat) : ℕ∞) = min (unbounded : ℕ∞) (product cs leaf) := by
  have hmax := max_within_of_small hcs h
  have hlt := h.products cs (List.prefix_refl _)
  have hown := maxOccurs?_eq hleaf
  rw [product,← hmax]
  rw [← hmax] at hzero hlt
  rw [max_flattened]
  by_cases hmany : 1 < (within {} cs).max
  · rw [if_pos hmany,Option.getD_some]
    by_cases hleast : leaf.most < unbounded
    · rw [min_eq_right hleast.le] at hown
      rw [← hown] at hleast ⊢
      rw [multiplyBounds_of_lt (by exact_mod_cast hleast) (by exact_mod_cast hlt),min_comm,mul_comm]
      rfl
    · have hlarge : unbounded ≤ leaf.maxOccurs?.getD 1 := by
        rw [min_eq_left (not_lt.mp hleast)] at hown
        exact_mod_cast hown.ge
      have hproduct : leaf.most ≤ ((within {} cs).max : ℕ∞) * leaf.most :=
        le_mul_of_one_le_left zero_le (by exact_mod_cast hmany.le)
      rw [multiplyBounds_of_le (.inl hlarge),min_eq_left ((not_lt.mp hleast).trans hproduct)]
  · have hone : (within {} cs).max = 1 := by
      have hne : (within {} cs).max ≠ 0 := by exact_mod_cast hzero
      omega
    rw [if_neg hmany,hown,hone,Nat.cast_one,one_mul]

/-- The upper bound of a particle is the product, saturated, if none of the factors is 0; and in one case more, where it
is 0 itself and all around it is small. -/
theorem max_flattened_eq_iff (hleaf : leaf.Bounded) :
    (((flattened cs leaf).max.getD 1 : Nat) : ℕ∞) = min (unbounded : ℕ∞) (product cs leaf) ↔
      (∀ c ∈ leaf :: cs, c.most ≠ 0) ∨ (leaf.most = 0 ∧ Small cs) := by
  have hpositive : (unbounded : ℕ∞) ≠ 0 := by exact_mod_cast (by decide : unbounded ≠ 0)
  by_cases hsmall : Small cs
  · by_cases hzero : (cs.map most).prod = 0
    · have hfactor : ¬ ∀ c ∈ leaf :: cs, c.most ≠ 0 := by
        intro hall
        obtain ⟨c,hc,hmost⟩ := List.mem_map.mp (List.prod_eq_zero_iff.mp hzero)
        exact hall c (List.mem_cons_of_mem leaf hc) hmost
      -- The particle has its own bound, as if nothing were around it: that is the product only if it is 0, too.
      rw [max_flattened_of_eq_zero hcs hsmall hzero,maxOccurs?_eq hleaf,product,hzero,zero_mul]
      rw [min_eq_right zero_le,← bot_eq_zero,min_eq_bot,bot_eq_zero]
      constructor
      · rintro (h | h)
        · exact absurd h hpositive
        · exact .inr ⟨h,hsmall⟩
      · rintro (h | ⟨h,_⟩)
        · exact absurd h hfactor
        · exact .inr h
    · have hall : (∀ c ∈ leaf :: cs, c.most ≠ 0) ∨ (leaf.most = 0 ∧ Small cs) := by
        by_cases hown : leaf.most = 0
        · exact .inr ⟨hown,hsmall⟩
        · refine .inl (List.forall_mem_cons.mpr ⟨hown,fun c hc hmost => hzero ?_⟩)
          exact List.prod_eq_zero_iff.mpr (List.mem_map.mpr ⟨c,hc,hmost⟩)
      exact iff_of_true (max_flattened_of_ne_zero hcs hleaf hsmall hzero) hall
  · -- The particle has the largest bound, and a factor of 0 takes the product below that.
    rw [max_flattened_of_not_small hcs hsmall,Option.getD_some,eq_comm,min_eq_left_iff]
    constructor
    · intro hlarge
      refine .inl fun c hc hmost => ?_
      rw [product_eq_zero_iff.mpr ⟨c,hc,hmost⟩] at hlarge
      exact hpositive (le_antisymm hlarge zero_le)
    · rintro (hall | ⟨_,h⟩)
      · exact le_product_of_not_small hsmall hall
      · exact absurd h hsmall

end Flattened

theorem min_flattened (cs : List Element) (leaf : Element) : (flattened cs leaf).min =
    if ∃ c ∈ cs, c.name = "choice" ∨ c.natural? "minOccurs" = some 0 then some 0 else leaf.natural? "minOccurs" := by
  have hoptional : (within {} cs).optional = true ↔ ∃ c ∈ cs, c.name = "choice" ∨ c.natural? "minOccurs" = some 0 := by
    simp [optional_within]
  simp only [flattened,Surroundings.apply,hoptional,occurrence]

/-- The particles that are read from a compositor are those in it, in their order. One can be left out if something around
it is a choice or can be left out, and else as often as its own bound says. Its upper bound is the product of all the upper
bounds on the way to it, saturated, if none of them is 0; if one is, it is so only where its own is 0 and all products of
those around it, from the outermost on, are small. -/
theorem particles_bounds (e : Element) :
    e.particles {} = e.leaves.map (fun l => l.2.particleWith (flattened l.1 l.2)) ∧
    (isCompositor e.name → ∀ t, e.takeMember t =
      { t with particles := t.particles ++ e.leaves.map fun l => l.2.particleWith (flattened l.1 l.2) }) ∧
    ∀ l ∈ e.leaves,
      (flattened l.1 l.2).min = (if ∃ c ∈ l.1, c.name = "choice" ∨ c.natural? "minOccurs" = some 0 then some 0
        else l.2.natural? "minOccurs") ∧
      ((∀ c ∈ l.2 :: l.1, c.Bounded) →
        ((((flattened l.1 l.2).max.getD 1 : Nat) : ℕ∞) = min (unbounded : ℕ∞) (product l.1 l.2) ↔
          (∀ c ∈ l.2 :: l.1, c.most ≠ 0) ∨ (l.2.most = 0 ∧ Small l.1))) := by
  have hparticles : e.particles {} = e.leaves.map fun l => l.2.particleWith (flattened l.1 l.2) :=
    particles_eq_leaves e {}
  refine ⟨hparticles,fun hcompositor t => ?_,fun l _ => ⟨min_flattened l.1 l.2,fun hbounded => ?_⟩⟩
  · rw [← hparticles,takeMember_eq,if_pos hcompositor,particles_eq,if_pos hcompositor]
  · obtain ⟨hleaf,hcs⟩ := List.forall_mem_cons.mp hbounded
    exact max_flattened_eq_iff hcs hleaf

/-- An element with an upper bound. -/
def boundedMember (own : String) : Element :=
  { name := "element", attributes := .ofList [("name","a"),("maxOccurs",own)] }

/-- A sequence with an upper bound around it. -/
def boundedSequence (bound own : String) : Element :=
  { name := "sequence", attributes := .ofList [("maxOccurs",bound)], children := [boundedMember own] }

theorem leaves_boundedSequence (bound own : String) :
    (boundedSequence bound own).leaves = [([boundedSequence bound own],boundedMember own)] := rfl

theorem particles_bounds_repeated : (∀ c ∈ [boundedMember "unbounded",boundedSequence "2" "unbounded"], c.Bounded) ∧
    (∀ c ∈ [boundedMember "unbounded",boundedSequence "2" "unbounded"], c.most ≠ 0) ∧
    (((flattened [boundedSequence "2" "unbounded"] (boundedMember "unbounded")).max.getD 1 : Nat) : ℕ∞) =
      min (unbounded : ℕ∞) (product [boundedSequence "2" "unbounded"] (boundedMember "unbounded")) := by
  have hmember : (boundedMember "unbounded").natural? "maxOccurs" = none := by decide +kernel
  have hsequence : (boundedSequence "2" "unbounded").natural? "maxOccurs" = some 2 := by decide +kernel
  have hbounded : ∀ c ∈ [boundedMember "unbounded",boundedSequence "2" "unbounded"], c.Bounded := by
    simp only [List.forall_mem_cons,Bounded,hmember,hsequence]
    decide
  have hmost : ∀ c ∈ [boundedMember "unbounded",boundedSequence "2" "unbounded"], c.most ≠ 0 := by
    have hnumber : (boundedSequence "2" "unbounded").attribute? "maxOccurs" ≠ some "unbounded" := by decide +kernel
    have hword : (boundedMember "unbounded").attribute? "maxOccurs" = some "unbounded" := rfl
    simp [most,hnumber,hword,hsequence]
  have hleaves := leaves_boundedSequence "2" "unbounded"
  have hbounds := ((particles_bounds (boundedSequence "2" "unbounded")).2.2 _ (hleaves ▸ List.mem_singleton_self _)).2
  exact ⟨hbounded,hmost,(hbounds hbounded).mpr (.inl hmost)⟩

/-- A sequence that occurs not at all. -/
def emptySequence : Bytes := Utf8.encodeString
  "<schema><complexType><sequence maxOccurs=\"0\"><element name=\"a\" maxOccurs=\"1\"/></sequence></complexType></schema>"

theorem parse_emptySequence : Node.parse emptySequence = .ok (some (.element ⟨"schema",[]⟩ [.element ⟨"complexType",[]⟩
    [.element ⟨"sequence",[("maxOccurs","0")]⟩ [.element ⟨"element",[("name","a"),("maxOccurs","1")]⟩ []]]])) := by
  decide +kernel

/-- What does not occur at all still has a member that occurs once. -/
theorem emptySequence_has_member :
    Element.parse emptySequence = .ok (some
      { name := "schema", children := [{ name := "complexType", children := [boundedSequence "0" "1"] }] }) ∧
    (boundedSequence "0" "1").leaves = [([boundedSequence "0" "1"],boundedMember "1")] ∧
    (boundedSequence "0" "1").particles {} =
      [.element { (boundedMember "1").elementDeclaration with occurs := { max := some 1 } }] ∧
    (∀ c ∈ [boundedMember "1",boundedSequence "0" "1"], c.Bounded) ∧
    (flattened [boundedSequence "0" "1"] (boundedMember "1")).max.getD 1 = 1 ∧
    min (unbounded : ℕ∞) (product [boundedSequence "0" "1"] (boundedMember "1")) = 0 := by
  have hmember : (boundedMember "1").natural? "maxOccurs" = some 1 := by decide +kernel
  have hsequence : (boundedSequence "0" "1").natural? "maxOccurs" = some 0 := by decide +kernel
  refine ⟨?_,rfl,?_,?_,by decide +kernel,?_⟩
  · rw [Element.parse,parse_emptySequence]
    rfl
  · rw [particles_eq_leaves,leaves_boundedSequence]
    rfl
  · simp only [List.forall_mem_cons,Bounded,hmember,hsequence]
    decide
  · have hnumber : (boundedSequence "0" "1").attribute? "maxOccurs" ≠ some "unbounded" := by decide +kernel
    simp [product,most,hnumber,hsequence]

end Element
end Xml
end SchemaBinding

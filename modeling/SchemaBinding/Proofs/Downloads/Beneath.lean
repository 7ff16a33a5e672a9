import SchemaBinding.Proofs.Downloads.Confined
import SchemaBinding.Proofs.Reading.Located

/-! Files below a root. A file is at a place below a root if its path goes on from the root by the names of the place; its
directory is at the place above, and a reference from there that does not leave the root leads to a place below the root.
Main statement: the file of a reference is at the place it leads to if and only if the root has no detours, or the place
is an entry of the root and has the name that the URI ends in. -/
namespace SchemaBinding
namespace Path

/-! ## Directories -/

theorem not_mem_of_mem_pieces {p : Path} {piece : String} (h : piece ∈ p.pieces) : '/' ∉ piece.toList := by
  rw [pieces_eq] at h
  obtain ⟨cs,hcs,rfl⟩ := List.mem_map.mp h
  simpa using (mem_splitOn_spec hcs).1

theorem componentsOf_singleton {absolute : Bool} {piece : String} (h : ¬ counts (!absolute) piece) :
    componentsOf absolute [piece] = componentsOf absolute [] := by
  unfold counts at h
  cases absolute <;> by_cases hempty : piece = "" <;> by_cases hcurrent : piece = "." <;>
    simp_all [componentsOf,componentsOfPieces]

/-- What is dropped leads nowhere, and what is kept ends in a piece that counts. -/
theorem trimPieces_spec (absolute : Bool) (pieces : List String) :
    (∃ ending, pieces = trimPieces absolute pieces ++ ending) ∧
      componentsOf absolute (trimPieces absolute pieces) = componentsOf absolute pieces ∧
      ∀ front last, trimPieces absolute pieces = front ++ [last] → counts (front.isEmpty && !absolute) last := by
  induction pieces generalizing absolute with
  | nil => simp [trimPieces]
  | cons piece rest ih =>
    obtain ⟨⟨ending,hending⟩,hsame,hlast⟩ := ih true
    have hrest : componentsOfPieces rest = componentsOfPieces (trimPieces true rest) := by
      simpa [componentsOf] using hsame.symm
    have hcons (more : List String) : componentsOf absolute (piece :: more) =
        componentsOf absolute [piece] ++ componentsOfPieces more := by
      rw [← List.singleton_append]
      exact componentsOf_append (by simp)
    rw [trimPieces]
    cases htrim : trimPieces true rest with
    | nil =>
      rw [htrim] at hrest
      have hpiece : componentsOf absolute (piece :: rest) = componentsOf absolute [piece] := by
        rw [hcons,hrest]
        exact List.append_nil _
      by_cases hcounts : counts (!absolute) piece
      · simp only [hcounts,if_true]
        refine ⟨⟨rest,rfl⟩,hpiece.symm,fun front last hone => ?_⟩
        cases front with
        | nil =>
          obtain rfl : piece = last := by simpa using hone
          simpa using hcounts
        | cons first more => simp at hone
      · simp only [hcounts]
        exact ⟨⟨piece :: rest,rfl⟩,by rw [hpiece,componentsOf_singleton hcounts]; rfl,by simp⟩
    | cons first more =>
      rw [htrim] at hrest hending hlast
      refine ⟨⟨ending,by rw [hending]; rfl⟩,?_,fun front last hfront => ?_⟩
      · rw [hcons,hcons rest,hrest]
      · cases front with
        | nil => simp at hfront
        | cons head tail =>
          have htail : first :: more = tail ++ [last] := by simpa using (List.cons.inj hfront).2
          simpa using hlast tail last htail

theorem toList_ofTrimmed (absolute : Bool) (pieces : List String) : (ofTrimmed absolute pieces).text.toList =
    (if absolute then ['/'] else []) ++ ['/'].intercalate (pieces.map String.toList) := by
  cases absolute <;> simp [ofTrimmed,String.toList_intercalate]

theorem isAbsolute_ofTrimmed {absolute : Bool} {pieces : List String} (hslash : ∀ piece ∈ pieces, '/' ∉ piece.toList)
    (hhead : absolute ∨ pieces.head? ≠ some "") : (ofTrimmed absolute pieces).isAbsolute = absolute := by
  rw [isAbsolute,toList_ofTrimmed]
  cases absolute with
  | true => simp
  | false =>
    cases pieces with
    | nil => simp
    | cons first rest =>
      have hfirst : first.toList ≠ [] := by simpa using hhead
      have hplain : first.toList.head? ≠ some '/' := fun h => hslash first (by simp) (List.mem_of_mem_head? h)
      cases rest <;> simpa [List.intercalate,List.head?_append_of_ne_nil _ hfirst] using hplain

theorem components_ofTrimmed {absolute : Bool} {pieces : List String} (hslash : ∀ piece ∈ pieces, '/' ∉ piece.toList)
    (hhead : absolute ∨ pieces.head? ≠ some "") :
    (ofTrimmed absolute pieces).components = componentsOf absolute pieces := by
  have habsolute := isAbsolute_ofTrimmed hslash hhead
  have hbody : (ofTrimmed absolute pieces).body = ['/'].intercalate (pieces.map String.toList) := by
    rw [body,habsolute,toList_ofTrimmed]
    cases absolute <;> simp
  rw [components_eq,habsolute,pieces_eq,hbody]
  cases hpieces : pieces with
  | nil => cases absolute <;> decide
  | cons first rest =>
    have hplain : ∀ cs ∈ pieces.map String.toList, '/' ∉ cs := by simpa using hslash
    rw [← hpieces,List.splitOn_intercalate '/' hplain (by simp [hpieces])]
    simp

/-- A last piece that counts, and that a name is the component of, stands for this component alone. -/
theorem componentsOf_of_counts {absolute : Bool} {front : List String} {last name : String} {cs : List Component}
    (hcounts : counts (front.isEmpty && !absolute) last)
    (h : componentsOf absolute (front ++ [last]) = cs ++ [.normal name]) : componentsOf absolute front = cs := by
  have hcurrent : last ≠ "." := by
    rintro rfl
    obtain ⟨rfl,hrelative⟩ : front = [] ∧ absolute = false := by simpa [counts] using hcounts
    have hends := congrArg List.getLast? h
    simp [hrelative,componentsOf,componentsOfPieces] at hends
  have hempty : last ≠ "" := by
    rintro rfl
    simp [counts] at hcounts
  have hsingle : componentsOfPieces [last] = [Component.ofPiece last] := by
    simp [componentsOfPieces,hempty,hcurrent]
  rw [componentsOf_append (fun _ => .inr (by simpa using hcurrent)),hsingle] at h
  exact (List.append_inj' h rfl).1

theorem parent?_of_trimPieces {p : Path} {front : List String} {last : String}
    (h : trimPieces p.isAbsolute p.pieces = front ++ [last]) :
    p.parent? = some (ofTrimmed p.isAbsolute (trimPieces p.isAbsolute front)) := by
  unfold parent?
  rw [h]
  cases front with
  | nil => rfl
  | cons first more =>
    have hdrop : (first :: more ++ [last]).dropLast = first :: more := List.dropLast_concat
    exact congrArg (fun pieces => some (ofTrimmed p.isAbsolute (trimPieces p.isAbsolute pieces))) hdrop

/-- What stands before a last piece that a name is the component of. -/
theorem exists_front {p : Path} {cs : List Component} {name : String} (h : p.components = cs ++ [.normal name]) :
    ∃ front last, trimPieces p.isAbsolute p.pieces = front ++ [last] ∧ componentsOf p.isAbsolute front = cs ∧
      (∀ piece ∈ front, '/' ∉ piece.toList) ∧ (p.isAbsolute ∨ front.head? ≠ some "") := by
  obtain ⟨⟨ending,hending⟩,hsame,hlast⟩ := trimPieces_spec p.isAbsolute p.pieces
  rw [← components_eq,h] at hsame
  rcases List.eq_nil_or_concat (trimPieces p.isAbsolute p.pieces) with hnil | ⟨front,last,htrim⟩
  · rw [hnil] at hsame
    cases habsolute : p.isAbsolute <;> simp [habsolute,componentsOf,componentsOfPieces] at hsame
    cases cs <;> simp at hsame
  · rw [List.concat_eq_append] at htrim
    rw [htrim] at hending hsame
    refine ⟨front,last,htrim,componentsOf_of_counts (hlast front last htrim) hsame,?_,?_⟩
    · intro piece hpiece
      refine not_mem_of_mem_pieces (p := p) ?_
      rw [hending]
      simp [hpiece]
    · by_cases habsolute : p.isAbsolute
      · exact .inl habsolute
      · have htext : p.text ≠ "" := fun htext => by simp [components_of_text_eq htext] at h
        refine .inr fun hfirst => head?_pieces_ne habsolute htext ?_
        rw [hending]
        simp [hfirst]

/-- The directory of a path that ends in a name leads through all but the name. -/
theorem parent?_components {p : Path} {cs : List Component} {name : String} (h : p.components = cs ++ [.normal name]) :
    ∃ directory, p.parent? = some directory ∧ directory.components = cs := by
  obtain ⟨front,last,htrim,hcomponents,hslash,hhead⟩ := exists_front h
  obtain ⟨⟨ending,hending⟩,hsame,_⟩ := trimPieces_spec p.isAbsolute front
  refine ⟨_,parent?_of_trimPieces htrim,?_⟩
  rw [components_ofTrimmed,hsame,hcomponents]
  · intro piece hpiece
    refine hslash piece ?_
    rw [hending]
    simp [hpiece]
  · refine hhead.imp_right fun hhead hfirst => hhead ?_
    rw [hending]
    simp [hfirst]

/-- Setting the extension of a path that ends in a name changes this name alone. -/
theorem components_withExtension {p : Path} {cs : List Component} {name extension : String}
    (h : p.components = cs ++ [.normal name]) (hname : IsName (extendName (splitExtension name).1 extension)) :
    (p.withExtension extension).components = cs ++ [.normal (extendName (splitExtension name).1 extension)] := by
  obtain ⟨front,last,htrim,hcomponents,hslash,hhead⟩ := exists_front h
  have hfile : p.fileName? = some name := by simp [fileName?,h]
  rw [withExtension,hfile]
  simp only [htrim,List.dropLast_concat]
  rw [components_ofTrimmed,componentsOf_append fun _ => .inr (by simpa using hname.not_current),hcomponents,
    hname.componentsOfPieces_eq]
  · exact List.forall_mem_append.mpr ⟨hslash,by simpa using hname.no_slash⟩
  · refine hhead.imp_right fun hhead => ?_
    cases front with
    | nil => simpa using hname.not_empty
    | cons first rest => simpa using hhead

/-! ## Roots without detours -/

/-- A path that stays as it is, in what it leads through, when it is freed of its detours. -/
def IsStraight (p : Path) : Prop := p.normalComponents = p.components

instance (p : Path) : Decidable p.IsStraight := inferInstanceAs (Decidable (_ = _))

theorem IsStraight.foldl_eq {p : Path} (h : p.IsStraight) :
    p.components.foldl normalizeStep [] = p.components.reverse := by
  rw [← List.reverse_eq_iff]
  exact h

theorem Settled.of_append {front rest : List Component} (h : Settled (front ++ rest)) : Settled rest := by
  induction front with
  | nil => exact h
  | cons c front ih =>
    have htail {stack : List Component} (h : Settled (c :: stack)) : Settled stack := by
      cases h with
      | root | parent => exact .empty
      | parentOfRoot => exact .root
      | name _ hrest => exact hrest
    exact ih (htail h)

/-- Nothing that is freed of its detours begins as a root does that has some. -/
theorem isStraight_of_startsWith {p root : Path} (h : p.normalize.startsWith root) : root.IsStraight := by
  obtain ⟨rest,hrest⟩ := List.isPrefixOf_iff_prefix.mp h
  rw [components_normalize] at hrest
  have hstack : p.components.foldl normalizeStep [] = rest.reverse ++ root.components.reverse := by
    rw [← List.reverse_append,hrest,normalComponents,List.reverse_reverse]
  have hsettled : Settled root.components.reverse := (hstack ▸ p.settled_components).of_append
  have hsame := hsettled.foldl_reverse
  rw [List.reverse_reverse] at hsame
  rw [IsStraight,normalComponents,hsame,List.reverse_reverse]

/-! ## Places below a root -/

/-- Where components lead from a place below a root, unless they leave it. -/
def below (here : List String) : List Component → Option (List String)
  | [] => some here
  | .root :: _ => none
  | .current :: rest => below here rest
  | .parent :: rest => if here.isEmpty then none else below here.dropLast rest
  | .normal name :: rest => below (here ++ [name]) rest

theorem foldl_normalizeStep_below {base cs : List Component} {here there : List String} (h : below here cs = some there) :
    cs.foldl normalizeStep ((here.map .normal).reverse ++ base) = (there.map .normal).reverse ++ base := by
  induction cs generalizing here with
  | nil => rw [← Option.some.inj h]; rfl
  | cons c cs ih =>
    cases c with
    | root => cases h
    | current => exact ih h
    | normal name => simpa [normalizeStep] using ih h
    | parent =>
      rcases List.eq_nil_or_concat here with rfl | ⟨above,name,rfl⟩
      · simp [below] at h
      · have hrest : below above cs = some there := by simpa [below] using h
        simpa [normalizeStep] using ih hrest

theorem isName_of_below {cs : List Component} {here there : List String} (h : below here cs = some there)
    (hhere : ∀ name ∈ here, IsName name) (hcs : ∀ name, .normal name ∈ cs → IsName name) :
    ∀ name ∈ there, IsName name := by
  induction cs generalizing here with
  | nil => rwa [← Option.some.inj h]
  | cons c cs ih =>
    have hrest : ∀ name, .normal name ∈ cs → IsName name := fun name hname => hcs name (by simp [hname])
    cases c with
    | root => cases h
    | current => exact ih h hhere hrest
    | normal name => exact ih h (List.forall_mem_append.mpr ⟨hhere,by simpa using hcs name (by simp)⟩) hrest
    | parent =>
      rw [below] at h
      split at h
      · cases h
      · exact ih h (fun name hname => hhere name (List.dropLast_subset _ hname)) hrest

/-- A path goes on from a root by names. -/
def At (root p : Path) (place : List String) : Prop := p.components = root.components ++ place.map .normal

instance (root p : Path) (place : List String) : Decidable (At root p place) := inferInstanceAs (Decidable (_ = _))

variable {root p : Path} {here place : List String}

theorem At.unique (h : At root p here) (h' : At root p place) : here = place := by
  have hsame : here.map Component.normal = place.map Component.normal := List.append_cancel_left (h.symm.trans h')
  exact List.map_injective_iff.mpr (fun _ _ hname => Component.normal.inj hname) hsame

theorem at_div_name (root : Path) {name : String} (h : IsName name) : At root (root / ⟨name⟩) [name] :=
  components_div_name root h

theorem At.isName (h : At root p place) : ∀ name ∈ place, IsName name := by
  intro name hname
  refine normal_of_mem_components (p := p) ?_
  rw [h]
  simp [hname]

theorem At.destination (h : At root p place) (d : Disk) : d.destination p = d.destination root ++ place := by
  rw [Disk.destination,h,List.foldl_append,foldl_step_names,Disk.destination]

/-- The directory of what is at a place is at the place above. -/
theorem At.directory (h : At root p place) (hplace : place ≠ []) (other : Path) :
    At root (p.parent?.getD other) place.dropLast := by
  rcases List.eq_nil_or_concat place with rfl | ⟨above,name,rfl⟩
  · exact absurd rfl hplace
  · have hcomponents : p.components = (root.components ++ above.map .normal) ++ [.normal name] := by
      rw [h]
      simp
    obtain ⟨directory,hdirectory,hsame⟩ := parent?_components hcomponents
    rw [hdirectory,List.concat_eq_append,List.dropLast_concat]
    exact hsame

/-- A path that does not leave a root without detours leads on from it. -/
theorem At.normalComponents_div (hdirectory : At root p here) (hroot : root.IsStraight) {q : Path}
    (h : below here q.components = some place) : (p / q).normalComponents = root.components ++ place.map .normal := by
  have hnames : p.components.foldl normalizeStep [] = (here.map .normal).reverse ++ root.components.reverse := by
    have hdown : below [] (here.map Component.normal) = some here := by
      have hgo (names above : List String) : below above (names.map Component.normal) = some (above ++ names) := by
        induction names generalizing above with
        | nil => simp [below]
        | cons name names ih => simp [below,ih]
      simpa using hgo here []
    rw [hdirectory,List.foldl_append,hroot.foldl_eq]
    exact foldl_normalizeStep_below hdown
  rw [normalComponents,foldl_components_div (fun _ => rfl) (fun _ _ => rfl),hnames,foldl_normalizeStep_below h]
  simp

end Path

namespace Download
open SchemaBinding.Path (At below)

/-! ## Files of references -/

theorem Link.isUrl_disk (l : Link) (disk disk' : Disk) : l.isUrl disk = l.isUrl disk' := by
  have hiff (disk : Disk) : l.isUrl disk ↔ ∃ u, Location.classify disk l.written = .url u := by
    unfold isUrl
    cases Location.classify disk l.written <;> simp
  rw [Bool.eq_iff_iff,hiff,hiff]
  simp only [Location.classify_eq_url_iff]

theorem Link.relative_disk (l : Link) (disk disk' : Disk) : l.relative disk = l.relative disk' := by
  rw [relative,relative,l.isUrl_disk disk disk']

theorem Link.target_disk (l : Link) (disk disk' : Disk) (root directory : Path) :
    l.target disk root directory = l.target disk' root directory := by
  rw [target,target,l.relative_disk disk disk']

theorem relocate_disk (disk disk' : Disk) (text : String) (ls : List Link) :
    relocate disk text ls = relocate disk' text ls := by
  have hrelative : (fun (s : Source) (l : Link) => s.replaceLocation l.written (l.relative disk)) =
      fun s l => s.replaceLocation l.written (l.relative disk') := by
    funext s l
    rw [l.relative_disk disk disk']
  rw [relocate,relocate,hrelative]

section
variable {l : Link} {disk : Disk} {root directory : Path} {here place : List String}

theorem Link.target_of_startsWith (h : (directory / ⟨l.relative disk⟩).normalize.startsWith root) :
    l.target disk root directory = (directory / ⟨l.relative disk⟩).normalize := if_pos h

theorem Link.target_of_not_startsWith (h : ¬ (directory / ⟨l.relative disk⟩).normalize.startsWith root) :
    l.target disk root directory = root / ⟨Location.fileName l.uri⟩ := if_neg h

/-- The file of a reference is at the place it leads to if the root has no detours, which no file that is freed of them
lies below, or if it is an entry of the root in any case. -/
theorem Link.at_target_iff (hroot : root.text ≠ "") (hdirectory : At root directory here)
    (hbelow : below here (⟨l.relative disk⟩ : Path).components = some place) (hplace : place ≠ []) :
    At root (l.target disk root directory) place ↔ root.IsStraight ∨ place = [Location.fileName l.uri] := by
  have hlast := Location.not_mem_fileName l.uri
  by_cases hinside : (directory / ⟨l.relative disk⟩).normalize.startsWith root
  · have hstraight := Path.isStraight_of_startsWith hinside
    have hthere : At root (l.target disk root directory) place := by
      rw [Link.target_of_startsWith hinside,At,Path.components_normalize]
      exact hdirectory.normalComponents_div hstraight hbelow
    exact ⟨fun _ => .inl hstraight,fun _ => hthere⟩
  · have hdetours : ¬ root.IsStraight := by
      intro hstraight
      refine hinside (List.isPrefixOf_iff_prefix.mpr ?_)
      rw [Path.components_normalize,hdirectory.normalComponents_div hstraight hbelow]
      exact List.prefix_append _ _
    rw [Link.target_of_not_startsWith hinside,or_iff_right hdetours]
    constructor
    · intro hthere
      -- a URI that ends in no name is asked for at the root or beside it, and not at a place
      rw [At,Path.components_div hroot (Path.not_isAbsolute_mk hlast),Path.pieces_mk hlast,
        List.append_cancel_left_eq] at hthere
      cases place with
      | nil => exact absurd rfl hplace
      | cons name more =>
        by_cases hskipped : Location.fileName l.uri = "" ∨ Location.fileName l.uri = "."
        · rcases hskipped with hskipped | hskipped <;> simp [hskipped,Path.componentsOfPieces] at hthere
        · by_cases hparent : Location.fileName l.uri = ".."
          · simp [hparent,Path.componentsOfPieces,Path.Component.ofPiece] at hthere
          · obtain ⟨hname,hmore⟩ : Location.fileName l.uri = name ∧ more = [] := by
              simpa [Path.componentsOfPieces,Path.Component.ofPiece,not_or.mp hskipped,hparent] using hthere
            rw [hname,hmore]
    · rintro rfl
      have hnames := Path.isName_of_below hbelow hdirectory.isName fun _ => Path.normal_of_mem_components
      exact Path.at_div_name root (hnames _ (by simp))

end
end Download
end SchemaBinding

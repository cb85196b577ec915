import BuildHook.Proofs.Digest.Pieces
import BuildHook.Proofs.Requests

/-!
# Addresses in the cache

A content is compared with a declared digest in any case and with white space around it, but the
address in the cache holds the declared text as it is. So two declarations of one digest have the
same address only if they are the same text, and a content that the cache keeps under its digest in
small digits is asked for there only where it is declared so.
-/

namespace BuildHook

open Run (exec)

namespace ExternalFile

variable {f g : ExternalFile} {name base other : String}

/-- The address of a file in a cache. -/
def address (f : ExternalFile) (base : String) : Except UrlFault String :=
  f.localName.map (f.cacheUrl base)

/-- The file, declared with the digest of a content as it is computed. -/
def declaring (f : ExternalFile) (content : List UInt8) : ExternalFile :=
  { f with sha512 := Sha512.ofContent content }

theorem localName_declaring (f : ExternalFile) (content : List UInt8) :
    (f.declaring content).localName = f.localName := by
  simp only [localName, declaring]

def slashes (count : Nat) : String :=
  String.ofList (List.replicate count '/')

@[simp] theorem trimSlashes_append (base : String) (count : Nat) :
    trimSlashes (base ++ slashes count) = trimSlashes base := by
  have hdrop : (List.replicate count '/' ++ base.toList.reverse).dropWhile (· = '/') =
      base.toList.reverse.dropWhile (· = '/') :=
    List.dropWhile_append_of_pos (by simp)
  rw [trimSlashes, slashes, String.toList_append, String.toList_ofList, List.reverse_append,
    List.reverse_replicate, hdrop, trimSlashes]

theorem cacheUrl_eq_iff (h : trimSlashes base = trimSlashes other) :
    f.cacheUrl base name = g.cacheUrl other name ↔ f.sha512 = g.sha512 := by
  simp only [cacheUrl, h, ← String.toList_inj, String.toList_append, List.append_cancel_right_eq,
    List.append_cancel_left_eq]

theorem address_eq_iff (hf : f.localName = .ok name) (hg : g.localName = .ok name)
    (h : trimSlashes base = trimSlashes other) :
    f.address base = g.address other ↔ f.sha512 = g.sha512 := by
  have hurl : f.cacheUrl base name = g.cacheUrl other name ↔ f.sha512 = g.sha512 :=
    cacheUrl_eq_iff h
  rw [address, address, hf, hg, ← hurl]
  exact ⟨Except.ok.inj, congrArg Except.ok⟩

end ExternalFile

namespace Lookaside

open ExternalFile (slashes)

variable {a : Lookaside} {f g : ExternalFile} {s : Session} {name : String}

/-- A file whose path is refused is not asked for. -/
theorem requests_unseen (hname : f.localName = .ok name) (hne : name ≠ "")
    (hsees : s.sees (f.target a.folder name) = false) :
    (exec (a.fetchOne f) s).2.requests = s.requests := by
  obtain ⟨cause, hlook⟩ := Session.exists_look_of_not_sees hsees
  rw [exec_fetchOne hname hne, hlook, Session.requests_looking]

/-- A file that is not in its place is asked for in the cache first, and then at most under its own
address. -/
theorem requests_missing (hname : f.localName = .ok name) (hne : name ≠ "")
    (hdirect : f.direct = false) (hmissing : s.holds (f.target a.folder name) f.sha512 = false)
    (hsees : s.sees (f.target a.folder name) = true) :
    ∃ more ⊆ [(f.url, a.agent)], (exec (a.fetchOne f) s).2.requests =
      s.requests ++ (f.cacheUrl a.base name, a.agent) :: more := by
  rw [exec_fetchOne hname hne, Session.look_of_sees hsees]
  dsimp only
  rw [if_neg (by simp [hmissing]), requests_store, exec_obtain, if_neg (by simp [hdirect])]
  have hfirst := requests_download a (f.cacheUrl a.base name) f.sha512
    ((f.target a.folder name).withName ("." ++ name)) (s.looking (f.target a.folder name))
  rw [Session.requests_looking] at hfirst
  split
  · next cause next hrun =>
    rw [hrun] at hfirst
    dsimp only at hfirst
    split
    · exact ⟨[(f.url, a.agent)], List.Subset.refl _, by
        rw [requests_download, hfirst, List.append_assoc, List.singleton_append]⟩
    · exact ⟨[], List.nil_subset _, hfirst⟩
  · exact ⟨[], List.nil_subset _, hfirst⟩

/-- Two declarations of one digest are met by the same contents, but have the same address only if
they are the same text. What is asked for first is this address, unless the path of the file is
refused: the one under which a content is kept with the digest that it has, only if just that text
has been declared. -/
theorem address_spelled (hf : f.localName = .ok name) (hg : g.localName = .ok name)
    (hdigest : f.digest = g.digest) :
    (∀ content, hasDigest content f.sha512 = hasDigest content g.sha512) ∧
      (∀ base m n, f.address (base ++ slashes m) = g.address (base ++ slashes n) ↔
        f.sha512 = g.sha512) ∧
      (name ≠ "" → f.direct = false → ∀ s : Session,
        s.holds (f.target a.folder name) f.sha512 = false →
        (s.sees (f.target a.folder name) = false →
          (exec (a.fetchOne f) s).2.requests = s.requests) ∧
        (s.sees (f.target a.folder name) = true →
          ∃ url, ∃ more ⊆ [(f.url, a.agent)], f.address a.base = .ok url ∧
            (exec (a.fetchOne f) s).2.requests = s.requests ++ (url, a.agent) :: more ∧
            ∀ content, (f.declaring content).address a.base = .ok url ↔
              f.sha512 = Sha512.ofContent content)) := by
  refine ⟨hasDigest_congr hdigest, fun base m n => ExternalFile.address_eq_iff hf hg (by simp),
    fun hne hdirect s hmissing => ⟨requests_unseen hf hne, fun hsees => ?_⟩⟩
  obtain ⟨more, hmore, hrequests⟩ := requests_missing hf hne hdirect hmissing hsees
  have haddress : f.address a.base = .ok (f.cacheUrl a.base name) := by
    rw [ExternalFile.address, hf]
    rfl
  refine ⟨_, more, hmore, haddress, hrequests, fun content => ?_⟩
  rw [← haddress, ExternalFile.address_eq_iff ((f.localName_declaring content).trans hf) hf rfl,
    eq_comm]
  rfl

-- One file with its digest in small digits, and the other one in capitals with a line end.
def smallFile : ExternalFile :=
  { emptyFile "y" with direct := false }

def capitalFile : ExternalFile :=
  { smallFile with sha512 := String.ofList (emptyDigest.toList.map Char.toUpper ++ ['\n']) }

theorem ofContent_nil : Sha512.ofContent [] = emptyDigest := by
  decide +kernel

theorem length_emptyDigest : emptyDigest.length = 128 := by
  rw [← ofContent_nil, Sha512.ofContent_eq, Sha512.length_standardText]

theorem digest_capitalFile : capitalFile.digest = emptyDigest := by
  have hblank : ['\n'].all Text.isBlank = true := by decide
  have hspelled := Sha512.lower_strip_spelled [] Char.toUpper (by decide +kernel) List.all_nil hblank
  rwa [List.nil_append, ← Sha512.ofContent_eq, ofContent_nil] at hspelled

theorem digest_smallFile : smallFile.digest = emptyDigest := by
  have hsame := Sha512.lower_strip_standardText []
  rwa [← Sha512.ofContent_eq, ofContent_nil] at hsame

theorem sha512_capitalFile_ne : capitalFile.sha512 ≠ emptyDigest := by
  intro h
  have hlength := congrArg String.length h
  rw [capitalFile, String.length_ofList, List.length_append, List.length_map, String.length_toList,
    length_emptyDigest] at hlength
  exact absurd hlength (by decide)

/-- A cache that keeps a file under its digest in small digits. -/
def keeping : Session :=
  { Session.fresh sampleTree ["r"] with
    replies := [(smallFile.cacheUrl sample.base "y", .content [] none)] }

theorem address_spelled_sample :
    let target := capitalFile.target sample.folder "y"
    (capitalFile.localName = .ok "y" ∧ smallFile.localName = .ok "y" ∧
        capitalFile.digest = smallFile.digest ∧ capitalFile.direct = false ∧
        keeping.holds target capitalFile.sha512 = false ∧ keeping.sees target = true) ∧
      capitalFile.address "https://cache//" ≠ smallFile.address "https://cache" ∧
      ∃ url, ∃ more ⊆ [(capitalFile.url, sample.agent)],
        (exec (sample.fetchOne capitalFile) keeping).2.requests =
          keeping.requests ++ (url, sample.agent) :: more ∧
        (capitalFile.declaring []).address sample.base ≠ .ok url := by
  intro target
  have hf : capitalFile.localName = .ok "y" := rfl
  have hg : smallFile.localName = .ok "y" := rfl
  have hdigest := digest_capitalFile.trans digest_smallFile.symm
  have hmissing : keeping.holds target capitalFile.sha512 = false := by decide +kernel
  have hsees : keeping.sees target = true := by decide +kernel
  obtain ⟨-, haddress, hasked⟩ := address_spelled (a := sample) hf hg hdigest
  obtain ⟨url, more, hmore, -, hrequests, hkept⟩ :=
    (hasked (by decide) rfl keeping hmissing).2 hsees
  refine ⟨⟨hf, hg, hdigest, rfl, hmissing, hsees⟩, fun h => ?_, url, more, hmore, hrequests,
    fun h => ?_⟩
  · exact sha512_capitalFile_ne ((haddress "https://cache" 2 0).mp (by simpa [slashes] using h))
  · exact sha512_capitalFile_ne (((hkept []).mp h).trans ofContent_nil)

/-- Two files with one name are met by the same contents, but only the one that is declared in small
digits has the address under which the cache keeps such a content. The other one is not found. -/
theorem address_missed :
    let missed := exec (sample.fetch [capitalFile]) keeping
    capitalFile.localName = smallFile.localName ∧
      (∀ content, hasDigest content capitalFile.sha512 = hasDigest content smallFile.sha512) ∧
      (∀ base, capitalFile.address base ≠ smallFile.address base) ∧
      hasDigest [] capitalFile.sha512 = true ∧ smallFile.sha512 = Sha512.ofContent [] ∧
      keeping.reply (smallFile.cacheUrl sample.base "y") = .content [] none ∧
      missed.1.toOption = none ∧
      missed.2.requests = [(capitalFile.cacheUrl sample.base "y", sample.agent)] := by
  intro missed
  have hcontents := hasDigest_congr (digest_capitalFile.trans digest_smallFile.symm)
  have hf : capitalFile.localName = .ok "y" := rfl
  have hg : smallFile.localName = .ok "y" := rfl
  have hmissed : missed.1.toOption = none ∧
      missed.2.requests = [(capitalFile.cacheUrl sample.base "y", sample.agent)] := by
    decide +kernel
  refine ⟨hf.trans hg.symm, hcontents, fun base h => ?_, ?_, ofContent_nil.symm, ?_, hmissed⟩
  · exact sha512_capitalFile_ne ((ExternalFile.address_eq_iff hf hg rfl).mp h)
  · rw [hasDigest, ofContent_nil, ← ExternalFile.digest, digest_capitalFile, decide_eq_true_iff]
  · simp [Session.reply, keeping]

end Lookaside

end BuildHook

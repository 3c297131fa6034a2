import SigmaQuery.Fault

/-!
# The package

What the package index is told about the tools when they are published.
-/

namespace SigmaQuery

structure Package where
  name : String
  version : String
  summary : String
  /-- The long description, from the file that introduces the tools. -/
  description : String
  url : String
  author : String
  email : String
  license : String
  keywords : List String
  classifiers : List String
  modules : List String
  /-- The versions of the language that the tools run on. -/
  language : String
  requirements : List String
  /-- What is needed besides for testing. -/
  testRequirements : List String
  /-- Folders, and the files that are put there. -/
  files : List (String × List String)
  commands : List String
deriving Repr, DecidableEq, Inhabited

namespace Package

/-- The names of the configurations that are shipped. -/
def configurations : List String :=
  ["arcsight", "elk-defaultindex-filebeat", "elk-defaultindex-logstash", "elk-defaultindex",
   "elk-linux", "elk-windows", "helk", "logpoint-windows-all", "qualys", "qradar", "spark",
   "splunk-windows-all"]

/-- The package of the tools. The text of its introduction may be missing. -/
def tools (introduction : Option String) : Except Fault Package :=
  match introduction with
  | none => .error .noFile
  | some description => .ok
    { name := "sigmatools"
      version := "0.6"
      summary := "Tools for the Generic Signature Format for SIEM Systems"
      description
      url := "https://github.com/Neo23x0/sigma"
      author := "Sigma Project"
      email := "thomas@patzke.org"
      license := "LGPLv3"
      keywords :=
        ["security", "monitoring", "siem", "logging", "signatures", "elasticsearch", "splunk",
         "ids", "sysmon"]
      classifiers :=
        ["Development Status :: 3 - Alpha", "Intended Audience :: Developers",
         "Intended Audience :: Information Technology",
         "Intended Audience :: System Administrators", "Topic :: Security",
         "Topic :: Internet :: Log Analysis",
         "License :: OSI Approved :: GNU Lesser General Public License v3 (LGPLv3)",
         "Programming Language :: Python :: 3.5", "Programming Language :: Python :: 3.6",
         "Environment :: Console"]
      modules := ["sigma"]
      language := "~=3.5"
      requirements := ["PyYAML"]
      testRequirements := ["coverage", "yamllint"]
      files := [("etc/sigma", configurations.map fun c => "config/" ++ c ++ ".yml")]
      commands := ["sigmac", "merge_sigma"] }

end Package

end SigmaQuery

import ServerPages.Artifact.Digest
import ServerPages.Compilation.Options

/-!
# Keys of artifacts

The result of a compilation is kept under a key made from everything that the result depends on: the
path, the syntax, the options and the source.
-/

namespace ServerPages

namespace CompilerOptions

/-- The options as text, in which every option is named. -/
def text (o : CompilerOptions) : Bytes :=
  "\x7bPackage:" ++ o.package ++ " RuntimeImport:" ++ o.runtimeImport ++
    " PoolTagHandlers:" ++ Bytes.ofBool o.poolTagHandlers ++
    " TextChunkSize:" ++ Bytes.ofInt o.textChunkSize ++
    " PoolLiteralText:" ++ Bytes.ofBool o.poolLiteralText ++
    " DefaultEncoding:" ++ o.defaultEncoding ++ " MaxErrors:" ++ Bytes.ofInt o.maxErrors ++
    " Overflow:" ++ Bytes.ofInt o.overflow.code ++ " Binder:<nil>\x7d"

end CompilerOptions

namespace ArtifactKey

/-- What the key of a compilation is made from. -/
def material (path form source : Bytes) (options : CompilerOptions) : Bytes :=
  path ++ [0] ++ form ++ [0] ++ options.text ++ [0] ++ source

/-- The key of a compilation. -/
def ofRequest (path form source : Bytes) (options : CompilerOptions) : Bytes :=
  Digest.hexText (Digest.sha256 (material path form source options))

end ArtifactKey

end ServerPages

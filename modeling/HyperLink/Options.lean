/-
This file is the option record of the file-transfer tool, the endpoint of each
stream, and the tar command lines that the single-stream directory mode hands
to the shell on POSIX systems.
-/

import HyperLink.Path

namespace HyperLink

def kDefaultPort : UInt16 := 47790

def kDefaultDiscoveryPort : UInt16 := 47789

structure Options where
  send : Bool := false
  receive : Bool := false
  autoDiscover : Bool := false
  advertise : Bool := true
  host : Bytes := ascii "0.0.0.0"
  port : UInt16 := kDefaultPort
  discoveryPort : UInt16 := kDefaultDiscoveryPort
  parallel : UInt32 := 1
  file : Path := Path.parse []
  outputDir : Path := Path.parse dot
  remoteName : Bytes := []
  deriving DecidableEq, Repr

structure TcpEndpoint where
  host : Bytes
  port : UInt16
  sendBufferBytes : UInt32
  receiveBufferBytes : UInt32
  deriving DecidableEq, Repr

/-- The sum is taken in 32 bits and cut to 16. -/
def endpointForStream (options : Options) (stream : UInt32) : TcpEndpoint where
  host := options.host
  port := (options.port.toUInt32 + stream).toUInt16
  sendBufferBytes := 8 * 1024 * 1024
  receiveBufferBytes := 8 * 1024 * 1024

/-- The check that the last stream's port exists, in 64 bits. -/
def portRangeExceeds (port : UInt16) (parallel : UInt32) : Bool :=
  port.toUInt64 + parallel.toUInt64 - 1 > 65535

/-! ### Shell commands -/

def quote : UInt8 := 0x27

/-- What options start with. -/
def hyphen : UInt8 := 0x2d

/-- The POSIX branch of `shell_quote`. -/
def shellQuote (path : Path) : Bytes :=
  [quote] ++ (path.string.flatMap fun character =>
    if character = quote then ascii "'\\''" else [character]) ++ [quote]

/-- The commands have the texts of `Path.string`: a separator that was typed twice stands in the
source's commands twice and here once, and tar is told the same directory. -/
def tarCreateCommand (directory : Path) : Bytes :=
  let parent := if directory.parentPath.isEmpty then Path.parse dot else directory.parentPath
  ascii "tar -cf - -C " ++ shellQuote parent ++ ascii " " ++
    shellQuote (Path.parse directory.filename)

def tarExtractCommand (outputDir : Path) : Bytes :=
  ascii "tar -xf - -C " ++ shellQuote outputDir

end HyperLink
